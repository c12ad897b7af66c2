/-
# What the check finds

The check of a state looks for four flaws, one after the other: an edge that carries another number
of forks than one, neighbours who eat together, someone who eats without both forks, and a wrong sum
of all forks.  On a state of any kind, reached by a ring or not, a flaw that is reported is there
(`Flaw.Tells`), and none is overlooked.

Two of the four are implied by the others.  The edges carry all forks of the table, so that the sum
is right as soon as each edge has one fork, and the last flaw is never reported.  Neighbours who eat
together with one fork between them cannot both hold two, so that this flaw only ever stands for one
of the two eating without a fork.

Main statement: `Ring.check_is_exact`.
-/
import DiningRing.Proofs.Seating

namespace DiningRing

variable {n : ℕ}

/-- What a flaw that is found tells of a state of a table of `n`. -/
inductive Flaw.Tells (n : ℕ) (s : RingState) : Flaw → Prop where
  | forks {edge : ℕ} (here : edge < n) (wrong : s.forksOn n edge ≠ 1) :
      Tells n s (.forks edge (s.forksOn n edge))
  | sideBySide {seat : ℕ} (here : seat < n) (one : s.forksOn n seat = 1)
      (eats : (s.diner seat).phase = .eating)
      (nextEats : (s.diner (Seat.next n seat)).phase = .eating) :
      Tells n s (.sideBySide seat (Seat.next n seat))
  | eatsEmptyHanded {seat : ℕ} (here : seat < n) (eats : (s.diner seat).phase = .eating)
      (lacks : (s.diner seat).hands.both = false) : Tells n s (.eatsEmptyHanded seat)

namespace Ring

variable {r : Ring} {s : RingState} {e i : ℕ} {f : Flaw}

/-! ### Where flaws are found -/

lemma tells_of_flawAt? (hs : s.Fits r.seats) (he : e < r.seats) (h : r.flawAt? s e = some f) :
    f.Tells r.seats s := by
  unfold flawAt? at h
  simp only [covers_of_fits hs he, forksOn_eq] at h
  by_cases hone : s.forksOn r.seats e = 1
  · by_cases heat : (s.diner e).phase = .eating ∧ (s.diner (Seat.next r.seats e)).phase = .eating
    · obtain rfl : Flaw.sideBySide e (Seat.next r.seats e) = f := by simpa [hone, heat] using h
      exact .sideBySide he hone heat.1 heat.2
    · simp [hone, heat] at h
  · obtain rfl : Flaw.forks e (s.forksOn r.seats e) = f := by simpa [hone] using h
    exact .forks he hone

lemma tells_of_findIdx? (hs : s.Fits r.seats) (h : s.diners.findIdx? eatsEmptyHanded = some i) :
    (Flaw.eatsEmptyHanded i).Tells r.seats s := by
  obtain ⟨hi, hfound, -⟩ := Array.findIdx?_eq_some_iff_getElem.mp h
  have hdiner : s.diners[i] = s.diner i := by
    simp [RingState.diner, Array.getD_eq_getD_getElem?, hi]
  rw [hdiner, eatsEmptyHanded, Bool.and_eq_true, Bool.not_eq_true', beq_iff_eq] at hfound
  exact .eatsEmptyHanded (by rw [← hs.diners]; exact hi) hfound.1 hfound.2

/-- **A flaw that the check reports is there.** -/
theorem tells_of_check (hs : s.Fits r.seats) (h : r.check s = .error f) : f.Tells r.seats s := by
  unfold check flaw? at h
  cases hfind : (List.range r.seats).findSome? (r.flawAt? s) with
  | some found =>
    obtain rfl : found = f := by simpa [hfind] using h
    obtain ⟨e, he, hflaw⟩ := List.exists_of_findSome?_eq_some hfind
    exact tells_of_flawAt? hs (List.mem_range.mp he) hflaw
  | none =>
    cases hidx : s.diners.findIdx? eatsEmptyHanded with
    | some seat =>
      obtain rfl : Flaw.eatsEmptyHanded seat = f := by simpa [hfind, hidx] using h
      exact tells_of_findIdx? hs hidx
    | none =>
      -- nothing is left to be found: with one fork on each edge the sum is right
      have hone : ∀ e < r.seats, s.forksOn r.seats e = 1 := fun e he =>
        ((flawAt?_eq_none_iff hs he).mp
          (List.findSome?_eq_none_iff.mp hfind e (List.mem_range.mpr he))).1
      simp [hfind, hidx, RingState.inHand_add_inFlight_of_one hs hone] at h

/-! ### The check as a whole -/

/-- **The check of a state is exact**, on every state of a ring and not only on those that it can
reach.  A state passes if each edge carries one fork and everyone who eats holds both, and only
then; no two neighbours eat together in it, and the forks in hand and in flight are as many as the
seats.  A flaw that is reported is there.  It is never the wrong sum of all forks, and it is that
neighbours eat together only where one of the two lacks a fork. -/
theorem check_is_exact (hn : 2 ≤ n) (p : Plan) :
    Ring.lay n p = .ok ⟨n, p⟩ ∧
    ∀ s : RingState, s.Fits n →
      let verdict := (⟨n, p⟩ : Ring).check s
      (verdict = .ok () ↔ (∀ e < n, s.forksOn n e = 1) ∧
        ∀ i < n, (s.diner i).phase = .eating → (s.diner i).hands.both = true) ∧
      (verdict = .ok () → (∀ i < n, ¬ ((s.diner i).phase = .eating ∧
        (s.diner (Seat.next n i)).phase = .eating)) ∧ s.inHand + s.inFlight = n) ∧
      (∀ flaw, verdict = .error flaw → flaw.Tells n s) ∧
      (∀ count seats, verdict ≠ .error (.total count seats)) ∧
      ∀ seat next, verdict = .error (.sideBySide seat next) → next = Seat.next n seat ∧
        (s.diner seat).phase = .eating ∧ (s.diner next).phase = .eating ∧
        ((s.diner seat).hands.both = false ∨ (s.diner next).hands.both = false) := by
  refine ⟨lay_eq_ok hn p, fun s hs => ?_⟩
  have htells : ∀ flaw, (⟨n, p⟩ : Ring).check s = .error flaw → flaw.Tells n s := fun flaw h =>
    tells_of_check (r := ⟨n, p⟩) hs h
  refine ⟨check_eq_ok_iff (r := ⟨n, p⟩) hs, fun hok => ?_, htells, fun count seats h => ?_,
    fun seat next h => ?_⟩
  · obtain ⟨hone, hboth⟩ := (check_eq_ok_iff (r := ⟨n, p⟩) hs).mp hok
    exact ⟨fun i hi => RingState.not_eating_together hi (hone i hi) hboth,
      RingState.inHand_add_inFlight_of_one hs hone⟩
  · cases htells _ h
  · cases htells _ h with
    | sideBySide hseat hone heats hnext =>
      exact ⟨rfl, heats, hnext, RingState.lacks_of_forksOn_eq_one hone⟩

/-- Two states of a table of three that no schedule leads to.  In the first one the second seat eats
with both its forks and the third fork is on its way: the state passes.  In the other one the first
two seats eat with one fork on every edge: the check names the two, and the second one lacks its
left fork. -/
theorem check_is_exact_at_three :
    2 ≤ 3 ∧
    let r : Ring := ⟨3, .reversedLast⟩
    let s : RingState := ⟨#[.fresh, ⟨.eating, .full⟩, .fresh],
      #[false, false, true], #[false, false, false]⟩
    let t : RingState := ⟨#[⟨.eating, .full⟩, ⟨.eating, ⟨false, true⟩⟩, .fresh],
      #[false, false, false], #[false, false, false]⟩
    s.Fits 3 ∧ r.check s = .ok () ∧ s.inHand + s.inFlight = 3 ∧
    t.Fits 3 ∧ r.check t = .error (.sideBySide 0 1) ∧
      ((t.diner 0).hands.both = false ∨ (t.diner 1).hands.both = false) := by
  refine ⟨by decide, ?_⟩
  intro r s t
  have hs : s.Fits 3 := ⟨rfl, rfl, rfl⟩
  have ht : t.Fits 3 := ⟨rfl, rfl, rfl⟩
  have hexact := (check_is_exact (n := 3) (by decide) .reversedLast).2
  have hpasses : r.check s = .ok () := (hexact s hs).1.mpr ⟨by decide, by decide⟩
  have hfails : r.check t = .error (.sideBySide 0 1) := by decide
  obtain ⟨-, -, -, -, hside⟩ := hexact t ht
  exact ⟨hs, hpasses, ((hexact s hs).2.1 hpasses).2, ht, hfails, (hside 0 1 hfails).2.2.2⟩

end Ring

end DiningRing
