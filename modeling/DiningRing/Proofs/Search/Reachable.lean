/-
# The reachable states

A ring has finitely many reachable states.  Under `reversedLast` a seat can move from each of
them.  Under `uniform` a state is told by how many actions each seat has still before it, and
these numbers are independent of each other: any of 0, 1 and 2 for every seat
(`Ring.bijOn_ahead`).  So there are `3 ^ n` states, and one of them, the stalemate, is
`2 * n` actions away from the start.
-/
import DiningRing.Proofs.Search.Schedules
import DiningRing.Proofs.Stalemate
import Mathlib.Algebra.BigOperators.Fin
import Mathlib.Algebra.Module.BigOperators
import Mathlib.Data.Set.Finite.Lemmas
import Mathlib.Data.Set.Finite.List
import Mathlib.Order.Lattice.Nat

open Finset (range)

namespace DiningRing

namespace Ring

variable {r : Ring} {s t : RingState} {w : List ℕ} {n i : ℕ}

/-! ### Finitely many states -/

instance : Finite Phase := by
  refine .of_injective (fun p : Phase => (p == .idle, p == .waiting, p == .eating)) ?_
  intro p q h
  cases p <;> cases q <;> first | rfl | cases h

instance : Finite Diner := by
  refine .of_injective (fun d : Diner => (d.phase, d.hands.left, d.hands.right)) ?_
  rintro ⟨p, ⟨l, r⟩⟩ ⟨q, ⟨l', r'⟩⟩ h
  simp_all

lemma finite_fits (n : ℕ) : {s : RingState | s.Fits n}.Finite := by
  have hlists := ((List.finite_length_eq Diner n).prod (List.finite_length_eq Bool n)).prod
    (List.finite_length_eq Bool n)
  refine (hlists.preimage (f := fun s : RingState =>
    ((s.diners.toList, s.towardRight.toList), s.towardLeft.toList)) ?_).subset ?_
  · rintro ⟨d, a, b⟩ - ⟨d', a', b'⟩ - h
    simp_all
  · intro s hs
    exact ⟨⟨hs.diners, hs.towardRight⟩, hs.towardLeft⟩

/-- **Finitely many states are reachable.** -/
theorem finite_reachable (hn : 2 ≤ r.seats) : {t | r.Reachable t}.Finite :=
  (finite_fits r.seats).subset fun _ ht => (ht.sound hn).fits

lemma exists_reached (hn : 2 ≤ r.seats) :
    ∃ reached : Finset RingState, ∀ t, t ∈ reached ↔ r.Reachable t :=
  ⟨(finite_reachable hn).toFinset, fun _ => (finite_reachable hn).mem_toFinset⟩

lemma reachable_initial (r : Ring) : r.Reachable r.initial := LeadsTo.start.reachable

lemma Reachable.exists_distance (hn : 2 ≤ r.seats) (ht : r.Reachable t) :
    ∃ d, r.Distance t d := by
  obtain ⟨schedule, hstate⟩ := (reachable_iff_play hn .null).mp ht
  exact ⟨_, Nat.sInf_mem ⟨_, schedule, hstate, rfl⟩, fun _ hk => Nat.sInf_le hk⟩

/-- **Some distance is the greatest.** -/
theorem exists_farthest (hn : 2 ≤ r.seats) : ∃ d, IsGreatest {d | ∃ t, r.Distance t d} d := by
  choose! distance hdistance using fun t (ht : r.Reachable t) => ht.exists_distance hn
  obtain ⟨t, ht, hmax⟩ := Set.exists_max_image {t | r.Reachable t} distance
    (finite_reachable hn) ⟨_, reachable_initial r⟩
  refine ⟨distance t, ⟨t, hdistance t ht⟩, ?_⟩
  rintro d ⟨s, hs⟩
  have hreachable := hs.reachable hn
  rw [hs.unique (hdistance s hreachable)]
  exact hmax s hreachable

/-- A ring has at least two reachable states. -/
lemma exists_reachable_ne (hn : 2 ≤ r.seats) : ∃ t, r.Reachable t ∧ t ≠ r.initial := by
  have hfirst : 0 < r.seats := by omega
  have hphase : (r.initial.diner 0).phase = .idle := by rw [diner_initial hfirst]
  refine ⟨_, (LeadsTo.start.move hfirst (.startWaiting hphase)).reachable, fun h => ?_⟩
  have hwaiting := diner_perform_self (a := .startWaiting) (sound_initial hn).fits hfirst
  rw [h] at hwaiting
  rw [hwaiting] at hphase
  cases hphase

/-! ### Under `reversedLast` -/

/-- From every reachable state a seat can move. -/
lemma enabled_ne_nil_of_reachable (hn : 2 ≤ n)
    (ht : Reachable ⟨n, .reversedLast⟩ t) : enabled ⟨n, .reversedLast⟩ t ≠ [] := by
  obtain ⟨w, hw⟩ := ht
  obtain ⟨h, hpath, -⟩ := leadsTo_iff_path.mp hw
  obtain ⟨k, hturn⟩ := hpath.course.turn (sound_initial (r := ⟨n, .reversedLast⟩) hn)
    (turn_initial n)
  exact enabled_ne_nil_of_turn (r := ⟨n, .reversedLast⟩) hn hturn (hw.sound hn)

/-! ### Under `uniform` -/

/-- Each entry of a schedule uses up one of the two actions of its seat. -/
lemma LeadsTo.starved (hw : LeadsTo ⟨n, .uniform⟩ w t) :
    t.Starved n ∧ ∀ i < n, (t.diner i).ahead + w.count i = 2 := by
  induction hw with
  | start =>
    refine ⟨starved_initial n, fun i hi => ?_⟩
    rw [diner_initial (r := ⟨n, .uniform⟩) hi]
    rfl
  | @move w s i a _ hi hready ih =>
    obtain ⟨hstarved, hahead⟩ := ih
    obtain ⟨hstarved', hstep⟩ := starved_perform (r := ⟨n, .uniform⟩) hstarved hi hready
    refine ⟨hstarved', fun j hj => ?_⟩
    have hbefore := hahead j hj
    rw [List.count_append]
    by_cases hji : j = i
    · subst hji
      rw [diner_perform_self (r := ⟨n, .uniform⟩) hstarved.fits hi, List.count_singleton_self]
      omega
    · rw [diner_perform_ne hji, List.count_singleton]
      simpa [Ne.symm hji] using hbefore

lemma LeadsTo.seat_lt (hw : r.LeadsTo w t) (hi : i ∈ w) : i < r.seats := by
  obtain ⟨h, hpath, rfl⟩ := leadsTo_iff_path.mp hw
  exact hpath.seat_lt hi

/-- Every schedule leads somewhere that has each seat twice at most. -/
lemma exists_leadsTo_of_count (hn : 2 ≤ n) (hseats : ∀ i ∈ w, i < n)
    (hcount : ∀ i, w.count i ≤ 2) : ∃ t, LeadsTo ⟨n, .uniform⟩ w t := by
  induction w using List.reverseRecOn with
  | nil => exact ⟨_, .start⟩
  | append_singleton w i ih =>
    have hcount' : ∀ j, w.count j ≤ 2 := fun j =>
      (List.sublist_append_left w [i]).count_le j |>.trans (hcount j)
    obtain ⟨t, ht⟩ := ih (fun j hj => hseats j (List.mem_append_left _ hj)) hcount'
    obtain ⟨hstarved, hahead⟩ := ht.starved
    have hi : i < n := hseats i (by simp)
    have hahead := hahead i hi
    have hlast := hcount i
    rw [List.count_append, List.count_singleton_self] at hlast
    obtain ⟨a, ha⟩ := (hstarved.exists_ready_iff (ht.sound hn) hi).mpr (by omega)
    exact ⟨_, ht.move hi ha⟩

/-- The schedule of `n` seats, each as often as a function says, one seat after the other. -/
def inTurn (n : ℕ) (times : ℕ → ℕ) : List ℕ :=
  (List.range n).flatMap fun i => List.replicate (times i) i

lemma mem_inTurn {times : ℕ → ℕ} (hi : i ∈ inTurn n times) : i < n := by
  obtain ⟨j, hj, hmem⟩ := List.mem_flatMap.mp hi
  rw [List.eq_of_mem_replicate hmem]
  exact List.mem_range.mp hj

lemma count_inTurn (n : ℕ) (times : ℕ → ℕ) (i : ℕ) :
    (inTurn n times).count i = if i < n then times i else 0 := by
  induction n with
  | zero => rfl
  | succ n ih =>
    rw [inTurn, List.range_succ, List.flatMap_append, List.count_append, ← inTurn, ih,
      List.flatMap_singleton, List.count_replicate]
    by_cases hin : i = n
    · subst hin
      simp
    · have hlt : i < n + 1 ↔ i < n := by omega
      simp [hlt, Ne.symm hin]

end Ring

/-! ### What is ahead -/

lemma Diner.ahead_le (d : Diner) : d.ahead ≤ 2 := by
  unfold ahead
  split
  · exact le_rfl
  · split_ifs <;> omega
  · omega
  · omega

/-- The diner without a right fork that has some actions before it. -/
def Diner.hungry : ℕ → Diner
  | 0 => ⟨.waiting, ⟨true, false⟩⟩
  | 1 => ⟨.waiting, .empty⟩
  | _ + 2 => .fresh

namespace RingState

variable {n i e : ℕ} {s t : RingState}

/-- The actions that each seat has still before it. -/
def ahead (n : ℕ) (s : RingState) (i : Fin n) : ℕ := (s.diner i).ahead

lemma Starved.diner_eq (hs : s.Starved n) (hi : i < n) :
    s.diner i = .hungry (s.diner i).ahead := by
  have hphase := hs.phase i hi
  have hright := hs.right i hi
  rw [owns, Bool.or_eq_false_iff] at hright
  replace hright : (s.diner i).hands.right = false := hright.1
  rw [hand] at hphase
  revert hphase hright
  generalize s.diner i = d
  obtain ⟨p, ⟨l, r⟩⟩ := d
  rintro (⟨rfl, rfl⟩ | rfl) rfl
  · rfl
  · cases l <;> rfl

/-- What is ahead of the seats tells a state without right forks. -/
lemma Starved.ext (hs : s.Starved n) (hsound : s.Sound n) (ht : t.Starved n)
    (htsound : t.Sound n) (h : s.ahead n = t.ahead n) : s = t := by
  have hdiner : ∀ i < n, s.diner i = t.diner i := by
    intro i hi
    have hahead : (s.diner i).ahead = (t.diner i).ahead := congrFun h ⟨i, hi⟩
    rw [hs.diner_eq hi, ht.diner_eq hi, hahead]
  refine hs.fits.ext ht.fits hdiner (fun e he => ?_) fun e he => ?_
  · -- the fork of edge `e` is in flight unless the next seat has it in its left hand
    have hnext := Seat.next_lt he
    have hhand : s.hand (Seat.next n e) .left = t.hand (Seat.next n e) .left := by
      rw [hand, hand, hdiner _ hnext]
    have hin : Slot.inbound n (Seat.next n e) .left = .towardRight e := by
      rw [Slot.inbound, Seat.previous_next he]
    rw [← hin]
    cases hleft : s.hand (Seat.next n e) .left with
    | true =>
      rw [hsound.inbound_of_hand hnext hleft, htsound.inbound_of_hand hnext (hhand ▸ hleft)]
    | false =>
      rw [hs.inbound_left hsound hnext hleft, ht.inbound_left htsound hnext (hhand ▸ hleft)]
  · have hright := hs.right e he
    have hright' := ht.right e he
    rw [owns, Bool.or_eq_false_iff] at hright hright'
    exact hright.2.trans hright'.2.symm

end RingState

namespace Ring

variable {t : RingState} {n : ℕ}

/-- What can be ahead of the seats of a table. -/
def amounts (n : ℕ) : Finset (Fin n → ℕ) := Fintype.piFinset fun _ => range 3

/-- **The reachable states of `uniform`** are told by what is ahead of the seats, and that can
be anything. -/
theorem bijOn_ahead (hn : 2 ≤ n) :
    Set.BijOn (RingState.ahead n) {t | Reachable ⟨n, .uniform⟩ t} (amounts n) := by
  refine ⟨fun t _ => ?_, fun s ⟨v, hs⟩ t ⟨w, ht⟩ h => ?_, fun u hu => ?_⟩
  · rw [Finset.mem_coe, amounts, Fintype.mem_piFinset]
    exact fun i => Finset.mem_range.mpr (Nat.lt_succ_of_le (Diner.ahead_le _))
  · exact hs.starved.1.ext (hs.sound hn) ht.starved.1 (ht.sound hn) h
  · rw [Finset.mem_coe, amounts, Fintype.mem_piFinset] at hu
    let times : ℕ → ℕ := fun i => if hi : i < n then 2 - u ⟨i, hi⟩ else 0
    obtain ⟨t, ht⟩ := exists_leadsTo_of_count (w := inTurn n times) hn (fun i => mem_inTurn)
      fun i => by
        rw [count_inTurn]
        split_ifs with hi
        · simp only [times, dif_pos hi]
          omega
        · omega
    refine ⟨t, ht.reachable, funext fun i => ?_⟩
    have hahead := ht.starved.2 i i.isLt
    have hbound := Finset.mem_range.mp (hu i)
    rw [count_inTurn, if_pos i.isLt] at hahead
    simp only [times, dif_pos i.isLt, Fin.eta] at hahead
    rw [RingState.ahead]
    omega

variable {reached : Finset RingState}

lemma length_enabled_uniform (hn : 2 ≤ n) (ht : Reachable ⟨n, .uniform⟩ t) :
    (enabled ⟨n, .uniform⟩ t).length = ∑ i : Fin n, if t.ahead n i = 0 then 0 else 1 := by
  obtain ⟨w, hw⟩ := ht
  have hnodup : (enabled ⟨n, .uniform⟩ t).Nodup := List.nodup_range.filter _
  have hfinset : (enabled ⟨n, .uniform⟩ t).toFinset
      = (range n).filter fun i => ¬ (t.diner i).ahead = 0 := by
    ext i
    rw [List.mem_toFinset, mem_enabled_iff, Finset.mem_filter, Finset.mem_range]
    refine and_congr_right fun hi => ?_
    rw [hw.starved.1.exists_ready_iff (hw.sound hn) hi, Nat.pos_iff_ne_zero]
  rw [← List.toFinset_card_of_nodup hnodup, hfinset, Finset.card_filter, Finset.sum_range]
  simp only [ite_not]
  rfl

section

variable (hn : 2 ≤ n) (hreached : ∀ t, t ∈ reached ↔ Reachable ⟨n, .uniform⟩ t)
include hn hreached

lemma bijOn_reached : Set.BijOn (RingState.ahead n) reached (amounts n) := by
  have hset : {t | Reachable ⟨n, .uniform⟩ t} = (reached : Set RingState) := by
    ext t
    exact (hreached t).symm
  rw [← hset]
  exact bijOn_ahead hn

/-- Under `uniform` there are `3 ^ n` reachable states. -/
theorem card_reached_uniform : reached.card = 3 ^ n := by
  have hbij := bijOn_reached hn hreached
  rw [Finset.card_nbij _ hbij.mapsTo hbij.injOn hbij.surjOn, amounts, Fintype.card_piFinset_const,
    Finset.card_range]

/-- **The steps of `uniform`**: each of the `n` seats can move in two states of three. -/
theorem sum_enabled_uniform :
    ∑ t ∈ reached, (enabled ⟨n, .uniform⟩ t).length = 2 * n * 3 ^ (n - 1) := by
  have hbij := bijOn_reached hn hreached
  calc ∑ t ∈ reached, (enabled ⟨n, .uniform⟩ t).length
      = ∑ t ∈ reached, ∑ i : Fin n, (if t.ahead n i = 0 then 0 else 1) :=
        Finset.sum_congr rfl fun t ht => length_enabled_uniform hn ((hreached t).mp ht)
    _ = ∑ u ∈ amounts n, ∑ i : Fin n, (if u i = 0 then 0 else 1) :=
        Finset.sum_nbij _ hbij.mapsTo hbij.injOn hbij.surjOn fun _ _ => rfl
    _ = ∑ i : Fin n, ∑ u ∈ amounts n, (if u i = 0 then 0 else 1) := Finset.sum_comm
    _ = ∑ _i : Fin n, 2 * 3 ^ (n - 1) := by
        refine Finset.sum_congr rfl fun i _ => ?_
        rw [amounts, Fintype.sum_piFinset_apply fun k => if k = 0 then 0 else 1, Fintype.card_fin,
          Finset.card_range, smul_eq_mul, Nat.mul_comm]
        rfl
    _ = 2 * n * 3 ^ (n - 1) := by
        rw [Finset.sum_const, Finset.card_univ, Fintype.card_fin, smul_eq_mul]
        ring

end

/-! ### The stalemate -/

section

variable {v w : List ℕ}

/-- The actions made and those ahead are two for each seat. -/
lemma LeadsTo.length_add_sum_ahead (hw : LeadsTo ⟨n, .uniform⟩ w t) :
    w.length + ∑ i ∈ range n, (t.diner i).ahead = 2 * n := by
  obtain ⟨h, hpath, rfl⟩ := leadsTo_iff_path.mp hw
  have hsum := (hpath.course.starved (starved_initial n)).2.2
  rwa [sum_ahead_initial, ← List.length_map (f := Move.seat)] at hsum

/-- No seat can move exactly after two actions of each. -/
lemma LeadsTo.enabled_eq_nil_iff (hn : 2 ≤ n) (hw : LeadsTo ⟨n, .uniform⟩ w t) :
    enabled ⟨n, .uniform⟩ t = [] ↔ w.length = 2 * n := by
  have hsum := hw.length_add_sum_ahead
  rw [hw.starved.1.enabled_eq_nil_iff (hw.sound hn)]
  omega

lemma LeadsTo.eq_stalemate (hn : 2 ≤ n) (hw : LeadsTo ⟨n, .uniform⟩ w t)
    (hlength : w.length = 2 * n) : t = RingState.stalemate n := by
  have hsum := hw.length_add_sum_ahead
  exact hw.starved.1.eq_stalemate (hw.sound hn) (by omega)

lemma LeadsTo.length_le (hw : LeadsTo ⟨n, .uniform⟩ w t) : w.length ≤ 2 * n :=
  hw.length_add_sum_ahead ▸ Nat.le_add_right _ _

/-- Seat after seat can make both its actions, and that leads to the stalemate. -/
lemma leadsTo_stalemate (hn : 2 ≤ n) :
    LeadsTo ⟨n, .uniform⟩ (inTurn n fun _ => 2) (RingState.stalemate n) := by
  obtain ⟨t, ht⟩ := exists_leadsTo_of_count (w := inTurn n fun _ => 2) hn (fun i => mem_inTurn)
    fun i => by
      rw [count_inTurn]
      split_ifs <;> omega
  have hzero : ∑ i ∈ range n, (t.diner i).ahead = 0 := by
    refine Finset.sum_eq_zero fun i hi => ?_
    have hi := Finset.mem_range.mp hi
    have hahead := ht.starved.2 i hi
    rw [count_inTurn, if_pos hi] at hahead
    omega
  rwa [ht.starved.1.eq_stalemate (ht.sound hn) hzero] at ht

lemma sum_ahead_stalemate (n : ℕ) :
    ∑ i ∈ range n, ((RingState.stalemate n).diner i).ahead = 0 := by
  refine Finset.sum_eq_zero fun i hi => ?_
  rw [RingState.diner_stalemate (Finset.mem_range.mp hi)]
  rfl

/-- The stalemate is the end of all schedules that go on as long as they can. -/
lemma enabled_stalemate (hn : 2 ≤ n) :
    enabled ⟨n, .uniform⟩ (RingState.stalemate n) = [] := by
  have hleads := leadsTo_stalemate hn
  rw [hleads.starved.1.enabled_eq_nil_iff (hleads.sound hn), sum_ahead_stalemate]

/-- All schedules to the stalemate have each seat twice. -/
lemma LeadsTo.perm_inTurn (hw : LeadsTo ⟨n, .uniform⟩ w (RingState.stalemate n)) :
    w.Perm (inTurn n fun _ => 2) := by
  refine List.perm_iff_count.mpr fun i => ?_
  rw [count_inTurn]
  split_ifs with hi
  · have hahead := hw.starved.2 i hi
    rw [RingState.diner_stalemate hi] at hahead
    simpa [Diner.ahead] using hahead
  · exact List.count_eq_zero.mpr fun hmem => hi (hw.seat_lt hmem)

/-- A list in ascending order comes first of all that have the same entries. -/
lemma not_lt_of_perm {d : List ℕ} (hd : d.Pairwise (· ≤ ·)) (hv : v.Perm d) : ¬ v < d := by
  induction d generalizing v with
  | nil => exact List.not_lt_nil v
  | cons a d ih =>
    cases v with
    | nil => exact absurd hv.length_eq (by simp)
    | cons b v =>
      obtain ⟨hle, hrest⟩ := List.pairwise_cons.mp hd
      rw [List.cons_lt_cons_iff]
      rintro (hba | ⟨rfl, hlt⟩)
      · rcases List.mem_cons.mp (hv.subset List.mem_cons_self) with rfl | hb
        · exact Nat.lt_irrefl _ hba
        · have := hle b hb
          omega
      · exact ih hrest hv.cons_inv hlt

lemma pairwise_inTurn (n : ℕ) (times : ℕ → ℕ) : (inTurn n times).Pairwise (· ≤ ·) := by
  refine List.pairwise_flatMap.mpr ⟨fun i _ => ?_, ?_⟩
  · exact List.pairwise_replicate.mpr (.inr le_rfl)
  · refine List.pairwise_lt_range.imp fun hij x hx y hy => ?_
    rw [List.eq_of_mem_replicate hx, List.eq_of_mem_replicate hy]
    exact hij.le

/-- **The first schedule to the stalemate** has each seat twice in turn. -/
theorem first_stalemate (hn : 2 ≤ n) :
    First ⟨n, .uniform⟩ (inTurn n fun _ => 2) (RingState.stalemate n) := by
  refine ⟨leadsTo_stalemate hn, fun v hv hnearer => ?_⟩
  rcases nearer_iff.mp hnearer with hlt | ⟨-, hlt⟩
  · rw [hv.perm_inTurn.length_eq] at hlt
    exact Nat.lt_irrefl _ hlt
  · exact not_lt_of_perm (pairwise_inTurn n _) hv.perm_inTurn hlt

end

end Ring

end DiningRing
