/-
# What a step can do

`Ring.Ready r s i a` lists, action by action, when seat `i` would perform `a` next.  It is
what `nextAction` decides, and together with the guard on the forks of a diner who stops
eating it is what `apply` carries out.
-/
import DiningRing.Proofs.State
import Mathlib.Tactic.ByContra

namespace DiningRing

namespace Ring

variable {r : Ring} {s t : RingState} {i : ℕ} {a : Action} {o : Order} {h : Hands} {side : Side}

/-! ### Which fork is next -/

lemma missing?_eq_none_iff : missing? o h = none ↔ h.both = true := by
  obtain ⟨l, r⟩ := h
  cases o <;> cases l <;> cases r <;> decide

lemma holds_of_missing?_eq_some (hm : missing? o h = some side) : h.holds side = false := by
  have hside := List.find?_some hm
  simpa using hside

lemma missing?_first (hfirst : h.holds o.first = false) : missing? o h = some o.first := by
  simp [missing?, Order.sides, hfirst]

lemma missing?_second (hfirst : h.holds o.first = true)
    (hsecond : h.holds o.first.opposite = false) : missing? o h = some o.first.opposite := by
  simp [missing?, Order.sides, hfirst, hsecond]

/-- Whoever reaches for the left fork first has it when reaching for the right one. -/
lemma left_of_missing?_eq_some (hm : missing? .leftThenRight h = some .right) :
    h.left = true := by
  obtain ⟨l, r⟩ := h
  cases l <;> cases r <;> revert hm <;> decide

lemma holds_of_returning?_eq_some (hr : returning? h = some side) : h.holds side = true :=
  List.find?_some hr

/-- The right fork is handed back only after the left one. -/
lemma left_of_returning?_eq_some (hr : returning? h = some .right) : h.left = false := by
  obtain ⟨l, r⟩ := h
  cases l <;> cases r <;> revert hr <;> decide

lemma exists_returning?_eq_some (hr : h.right = true) : ∃ side, returning? h = some side := by
  obtain ⟨l, r⟩ := h
  cases l
  · exact ⟨.right, by simp_all [returning?, Hands.holds]⟩
  · exact ⟨.left, by simp [returning?, Hands.holds]⟩

/-! ### Ready seats -/

/-- Seat `i` would perform an action next and is not blocked. -/
inductive Ready (r : Ring) (s : RingState) (i : ℕ) : Action → Prop where
  | startWaiting (phase : (s.diner i).phase = .idle) : Ready r s i .startWaiting
  | take (side : Side) (phase : (s.diner i).phase = .waiting)
      (missing : missing? (r.order i) (s.diner i).hands = some side)
      (arrived : s.slot (Slot.inbound r.seats i side) = true) : Ready r s i (.take side)
  | eat (phase : (s.diner i).phase = .waiting) (both : (s.diner i).hands.both = true) :
      Ready r s i .eat
  | finish (phase : (s.diner i).phase = .eating) : Ready r s i .finish
  | give (side : Side) (phase : (s.diner i).phase = .releasing)
      (returning : returning? (s.diner i).hands = some side)
      (room : s.slot (Slot.outbound r.seats i side) = false) : Ready r s i (.give side)

lemma ready_of_nextAction (ha : r.nextAction s i = some a) : r.Ready s i a := by
  unfold nextAction at ha
  cases hp : (s.diner i).phase with
  | idle =>
    obtain rfl : .startWaiting = a := by simpa [hp] using ha
    exact .startWaiting hp
  | waiting =>
    cases hm : missing? (r.order i) (s.diner i).hands with
    | none =>
      obtain rfl : .eat = a := by simpa [hp, hm] using ha
      exact .eat hp (missing?_eq_none_iff.mp hm)
    | some side =>
      obtain ⟨hslot, rfl⟩ : s.slot (Slot.inbound r.seats i side) = true ∧ .take side = a := by
        simpa [hp, hm] using ha
      exact .take side hp hm hslot
  | eating =>
    obtain rfl : .finish = a := by simpa [hp] using ha
    exact .finish hp
  | releasing =>
    cases hr : returning? (s.diner i).hands with
    | none => simp [hp, hr] at ha
    | some side =>
      obtain ⟨hslot, rfl⟩ : s.slot (Slot.outbound r.seats i side) = false ∧ .give side = a := by
        simpa [hp, hr] using ha
      exact .give side hp hr hslot

lemma Ready.nextAction (h : r.Ready s i a) : r.nextAction s i = some a := by
  cases h with
  | startWaiting hp => simp [Ring.nextAction, hp]
  | take side hp hm hslot => simp [Ring.nextAction, hp, hm, hslot]
  | eat hp hb => simp [Ring.nextAction, hp, missing?_eq_none_iff.mpr hb]
  | finish hp => simp [Ring.nextAction, hp]
  | give side hp hr hslot => simp [Ring.nextAction, hp, hr, hslot]

/-- **The next action of a seat** is the one for which it is ready. -/
theorem nextAction_eq_some_iff : r.nextAction s i = some a ↔ r.Ready s i a :=
  ⟨ready_of_nextAction, Ready.nextAction⟩

lemma mem_enabled_iff : i ∈ r.enabled s ↔ i < r.seats ∧ ∃ a, r.Ready s i a := by
  simp [enabled, Option.isSome_iff_exists, nextAction_eq_some_iff]

/-- **A call that moves a seat** performs the action for which the seat is ready; a seat that
stops eating has both its forks. -/
theorem apply_eq_some_iff : r.apply s i = .ok (some (a, t)) ↔
    r.Ready s i a ∧ (a = .finish → (s.diner i).hands.both = true) ∧ t = r.perform s i a := by
  unfold apply
  constructor
  · intro h
    cases hn : r.nextAction s i with
    | none => simp [hn] at h
    | some b =>
      simp only [hn] at h
      split_ifs at h with hguard
      simp only [Except.ok.injEq, Option.some.injEq, Prod.mk.injEq] at h
      obtain ⟨rfl, rfl⟩ := h
      refine ⟨ready_of_nextAction hn, fun hfin => ?_, rfl⟩
      by_contra hb
      exact hguard ⟨hfin, by simpa using hb⟩
  · rintro ⟨hready, hfin, rfl⟩
    simp only [hready.nextAction]
    rw [if_neg]
    rintro ⟨rfl, hb⟩
    exact absurd (hfin rfl) (by simp [hb])

/-- A call is refused only at a seat that stops eating without both its forks. -/
lemma apply_ne_error {f : Flaw}
    (hb : (s.diner i).phase = .eating → (s.diner i).hands.both = true) :
    r.apply s i ≠ .error f := by
  unfold apply
  cases hn : r.nextAction s i with
  | none => simp
  | some b =>
    simp only
    rw [if_neg]
    · simp
    · rintro ⟨rfl, hboth⟩
      cases ready_of_nextAction hn with
      | finish hp => exact absurd (hb hp) (by simp [hboth])

end Ring

end DiningRing
