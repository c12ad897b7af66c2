/-
# Waiting for meals

A call of a recorder counts its event first and announces the meal afterwards, and in between any
number of other calls may do the same.  A waiter takes note of the progress, looks at the counters,
and sleeps until the progress is another one.  `Watch.Step` is any step of any of them, so that the
calls and the waiter get into each other's way wherever they can.

The waiter does not come back too early, because it comes back from a look at the counters only,
and these never fall.  It does not sleep too long either.  Its look comes after its note of the
progress; so a meal that the look has missed is announced after that note, or is still to be
announced (`Watch.Kept`).  This is why a waiter has to take note before it looks, and a call to
count before it announces.

Main statement: `Watch.waiter_neither_early_nor_asleep`.
-/
import DiningRing.Proofs.Recorders
import Mathlib.Data.Nat.Notation
import Mathlib.Logic.Relation

namespace DiningRing

open Relation (ReflTransGen)

/-! ### Calls -/

/-- How far a call of a recorder has come. -/
inductive Recording.Stage where
  /-- It has begun and done nothing yet. -/
  | called
  /-- It has counted a meal that it has to announce. -/
  | counted
  /-- It is done. -/
  | finished
deriving DecidableEq, Repr

/-- A call that records an event. -/
structure Recording where
  event : Event
  stage : Recording.Stage
deriving DecidableEq, Repr

namespace Recording

/-- A call that has counted its event; only a meal has to be announced. -/
def count (e : Event) : Recording := ⟨e, if e.isMeal then .counted else .finished⟩

/-- Whether the event of a call has been counted. -/
def isCounted (c : Recording) : Bool := c.stage != .called

end Recording

/-! ### A recorder in use -/

/-- A recorder with the calls that have been made of it, and with someone who waits. -/
structure Watch where
  recorder : Recorder
  calls : List Recording
  waiter : Waiter

namespace Watch

/-- A recorder that nobody has called yet, and someone who arrives. -/
def begin (r : Recorder) : Watch := ⟨r, [], .arriving⟩

/-- The events that have been counted. -/
def counted (w : Watch) : List Event := (w.calls.filter Recording.isCounted).map Recording.event

/-- A step of someone: a call is made, or it counts its event, or it announces the meal it has
counted, or the waiter goes on waiting for `least` meals of each seat below `seats`. -/
inductive Step (seats least : ℕ) : Watch → Watch → Prop where
  | call (w : Watch) (e : Event) : Step seats least w { w with calls := w.calls ++ [⟨e, .called⟩] }
  | count (r : Recorder) (before after : List Recording) (e : Event) (waiter : Waiter) :
      Step seats least ⟨r, before ++ ⟨e, .called⟩ :: after, waiter⟩
        ⟨r.count e, before ++ .count e :: after, waiter⟩
  | announce (r : Recorder) (before after : List Recording) (e : Event) (waiter : Waiter) :
      Step seats least ⟨r, before ++ ⟨e, .counted⟩ :: after, waiter⟩
        ⟨r.announce, before ++ ⟨e, .finished⟩ :: after, waiter⟩
  | wait (w : Watch) : Step seats least w { w with waiter := w.waiter.step seats least w.recorder }

/-- A step of the waiter to the stage to which it comes. -/
lemma Step.wait_to {seats least : ℕ} (w : Watch) {waiter : Waiter}
    (h : w.waiter.step seats least w.recorder = waiter) :
    Step seats least w { w with waiter := waiter } :=
  h ▸ .wait w

end Watch

/-! ### Counters -/

namespace Recorder

variable {seats least : ℕ} {r : Recorder}

lemma fed_iff : r.fed seats least = true ↔ ∀ seat < seats, least ≤ r.mealsOf seat := by
  simp [fed, mealsPerSeat]

/-- The counters change when an event is counted. -/
lemma mealsOf_count (r : Recorder) (e : Event) (seat : ℕ) :
    (r.count e).mealsOf seat = r.mealsOf seat + Trace.mealsOf seat [e] := by
  rw [← mealsOf_record, record]
  split_ifs <;> rfl

/-- Whoever is fed stays fed. -/
lemma fed_count (h : r.fed seats least = true) (e : Event) :
    (r.count e).fed seats least = true := by
  rw [fed_iff] at h ⊢
  intro seat hseat
  rw [mealsOf_count]
  exact Nat.le_add_right_of_le (h seat hseat)

/-- An event that is no meal feeds nobody. -/
lemma fed_count_of_not_isMeal {e : Event} (he : e.isMeal = false) :
    (r.count e).fed seats least = r.fed seats least := by
  rw [Bool.eq_iff_iff, fed_iff, fed_iff]
  simp only [mealsOf_count, Trace.mealsOf_singleton, he, Bool.false_eq_true, false_and, if_false,
    Nat.add_zero]

end Recorder

/-! ### What every step keeps -/

namespace Watch

variable {seats least : ℕ} {r : Recorder} {w v : Watch}

/-- What holds of a recorder in use that was `r` at the beginning. -/
structure Kept (seats least : ℕ) (r : Recorder) (w : Watch) : Prop where
  /-- The counters tell the meals that have been counted. -/
  meals : ∀ seat, w.recorder.mealsOf seat = r.mealsOf seat + Trace.mealsOf seat w.counted
  /-- A waiter has taken note of announcements only that have been made. -/
  noted : ∀ seen, w.waiter = .checking seen ∨ w.waiter = .suspended seen →
    seen ≤ w.recorder.progress
  /-- Where everybody is fed and a waiter sleeps with nothing unseen, a meal is still to be
  announced. -/
  owed : w.waiter = .suspended w.recorder.progress → w.recorder.fed seats least = true →
    ∃ c ∈ w.calls, c.stage = .counted
  /-- Whoever has come back has found everybody fed, and they still are. -/
  fed : w.waiter = .satisfied → w.recorder.fed seats least = true

lemma kept_begin (seats least : ℕ) (r : Recorder) : Kept seats least r (begin r) where
  meals _ := rfl
  noted _ h := by rcases h with h | h <;> cases h
  owed h := by cases h
  fed h := by cases h

lemma counted_call (w : Watch) (e : Event) :
    counted { w with calls := w.calls ++ [⟨e, .called⟩] } = w.counted := by
  simp [counted, Recording.isCounted]

/-- One more event is counted. -/
lemma mealsOf_counted_count (r : Recorder) (before after : List Recording) (e : Event)
    (waiter : Waiter) (seat : ℕ) :
    Trace.mealsOf seat (counted ⟨r.count e, before ++ .count e :: after, waiter⟩)
      = Trace.mealsOf seat (counted ⟨r, before ++ ⟨e, .called⟩ :: after, waiter⟩)
        + Trace.mealsOf seat [e] := by
  have hcounted : (Recording.count e).isCounted = true := by
    unfold Recording.count
    split_ifs <;> rfl
  have hcalled : Recording.isCounted ⟨e, .called⟩ = false := rfl
  rw [counted, counted, List.filter_append, List.filter_append, List.filter_cons_of_pos hcounted,
    List.filter_cons_of_neg (by simp [hcalled]), List.map_append, List.map_append, List.map_cons,
    ← List.singleton_append (x := (Recording.count e).event), Trace.mealsOf_append,
    Trace.mealsOf_append, Trace.mealsOf_append]
  show _ + (Trace.mealsOf seat [e] + _) = _
  omega

lemma Kept.call (h : w.Kept seats least r) (e : Event) :
    Kept seats least r { w with calls := w.calls ++ [⟨e, .called⟩] } where
  meals := by rw [counted_call]; exact h.meals
  noted := h.noted
  owed hsleeps hfed := by
    obtain ⟨c, hc, hstage⟩ := h.owed hsleeps hfed
    exact ⟨c, List.mem_append_left _ hc, hstage⟩
  fed := h.fed

lemma Kept.count {s : Recorder} {before after : List Recording} {e : Event} {waiter : Waiter}
    (h : Kept seats least r ⟨s, before ++ ⟨e, .called⟩ :: after, waiter⟩) :
    Kept seats least r ⟨s.count e, before ++ .count e :: after, waiter⟩ where
  meals seat := by
    rw [mealsOf_counted_count, ← Nat.add_assoc, ← h.meals]
    exact s.mealsOf_count e seat
  noted := h.noted
  owed hsleeps hfed := by
    cases hmeal : e.isMeal with
    | true => exact ⟨.count e, by simp, by simp [Recording.count, hmeal]⟩
    | false =>
      -- nobody is fed by it, so that the meal to be announced is that of another call
      rw [Recorder.fed_count_of_not_isMeal hmeal] at hfed
      obtain ⟨c, hc, hstage⟩ := h.owed hsleeps hfed
      rcases List.mem_append.mp hc with hc | hc
      · exact ⟨c, List.mem_append_left _ hc, hstage⟩
      · rcases List.mem_cons.mp hc with rfl | hc
        · cases hstage
        · exact ⟨c, List.mem_append_right _ (List.mem_cons_of_mem _ hc), hstage⟩
  fed hback := Recorder.fed_count (h.fed hback) e

lemma Kept.announce {s : Recorder} {before after : List Recording} {e : Event} {waiter : Waiter}
    (h : Kept seats least r ⟨s, before ++ ⟨e, .counted⟩ :: after, waiter⟩) :
    Kept seats least r ⟨s.announce, before ++ ⟨e, .finished⟩ :: after, waiter⟩ where
  meals seat := by
    have hsame : counted ⟨s.announce, before ++ ⟨e, .finished⟩ :: after, waiter⟩
        = counted ⟨s, before ++ ⟨e, .counted⟩ :: after, waiter⟩ := by
      simp [counted, Recording.isCounted, List.filter_cons]
    rw [hsame]
    exact h.meals seat
  noted seen hseen := Nat.le_succ_of_le (h.noted seen hseen)
  owed hsleeps := by
    -- whoever sleeps has not seen this announcement
    have := h.noted _ (.inr hsleeps)
    exact absurd this (Nat.not_succ_le_self s.progress)
  fed := h.fed

lemma Kept.wait (h : w.Kept seats least r) :
    Kept seats least r { w with waiter := w.waiter.step seats least w.recorder } := by
  obtain ⟨s, calls, waiter⟩ := w
  cases waiter with
  | arriving =>
    exact ⟨h.meals, fun seen hseen => by simp_all [Waiter.step], by simp [Waiter.step],
      by simp [Waiter.step]⟩
  | checking seen =>
    have hnoted : seen ≤ s.progress := h.noted seen (.inl rfl)
    cases hfed : s.fed seats least with
    | true =>
      refine ⟨h.meals, fun _ hseen => ?_, fun hsleeps => ?_, fun _ => hfed⟩
      · simp [Waiter.step, hfed] at hseen
      · simp [Waiter.step, hfed] at hsleeps
    | false =>
      refine ⟨h.meals, fun other hseen => ?_, fun _ hfed' => ?_, fun hback => ?_⟩
      · simp only [Waiter.step, hfed] at hseen
        simp_all
      · rw [hfed] at hfed'
        cases hfed'
      · simp [Waiter.step, hfed] at hback
  | suspended seen =>
    by_cases hseen : s.progress = seen
    · simpa [Waiter.step, hseen] using h
    · refine ⟨h.meals, fun other hother => ?_, fun hsleeps => ?_, fun hback => ?_⟩
      · simp only [Waiter.step, hseen] at hother
        simp_all
      · simp [Waiter.step, hseen] at hsleeps
      · simp [Waiter.step, hseen] at hback
  | satisfied => exact h

/-- **Every step keeps it**, whoever takes it. -/
theorem Kept.step (h : w.Kept seats least r) (hstep : Step seats least w v) :
    v.Kept seats least r := by
  cases hstep with
  | call w e => exact h.call e
  | count => exact h.count
  | announce => exact h.announce
  | wait => exact h.wait

lemma kept_of_reaches (h : ReflTransGen (Step seats least) (begin r) w) :
    w.Kept seats least r := by
  induction h with
  | refl => exact kept_begin seats least r
  | tail _ hstep ih => exact ih.step hstep

/-! ### The return of the waiter -/

/-- A step with which the waiter comes back is a look at the counters that finds everybody fed. -/
lemma checking_of_step (hstep : Step seats least w v) (hback : v.waiter = .satisfied)
    (haway : w.waiter ≠ .satisfied) : (∃ seen, w.waiter = .checking seen) ∧
      w.recorder.fed seats least = true ∧ v = { w with waiter := .satisfied } := by
  cases hstep with
  | call | count | announce => exact absurd hback haway
  | wait =>
    obtain ⟨s, calls, waiter⟩ := w
    cases waiter with
    | arriving => cases hback
    | checking seen =>
      cases hfed : s.fed seats least with
      | true => exact ⟨⟨seen, rfl⟩, rfl, by simp [Waiter.step, hfed]⟩
      | false => simp [Waiter.step, hfed] at hback
    | suspended seen =>
      simp only [Waiter.step] at hback
      split_ifs at hback
    | satisfied => exact absurd rfl haway

/-- A waiter that has come back has looked, at some point of the run, and found everybody fed. -/
lemma exists_check (h : ReflTransGen (Step seats least) (begin r) w)
    (hback : w.waiter = .satisfied) : ∃ earlier seen,
      ReflTransGen (Step seats least) (begin r) earlier ∧ earlier.waiter = .checking seen ∧
      earlier.recorder.fed seats least = true ∧
      ReflTransGen (Step seats least) { earlier with waiter := .satisfied } w := by
  induction h with
  | refl => cases hback
  | @tail w v hreach hstep ih =>
    by_cases hbefore : w.waiter = .satisfied
    · obtain ⟨earlier, seen, hfirst, hlook, hfed, hlater⟩ := ih hbefore
      exact ⟨earlier, seen, hfirst, hlook, hfed, hlater.tail hstep⟩
    · obtain ⟨⟨seen, hlook⟩, hfed, rfl⟩ := checking_of_step hstep hback hbefore
      exact ⟨w, seen, hreach, hlook, hfed, .refl⟩

/-- Where everybody is fed, a waiter that does not sleep with nothing unseen comes back when it is
given a turn. -/
lemma turn_eq_satisfied {s : Recorder} {waiter : Waiter} (hfed : s.fed seats least = true)
    (hawake : waiter ≠ .suspended s.progress) : waiter.turn seats least s = .satisfied := by
  cases waiter with
  | arriving | checking seen | satisfied => simp [Waiter.turn, Waiter.step, hfed]
  | suspended seen =>
    have hunseen : s.progress ≠ seen := fun h => hawake (by rw [h])
    simp [Waiter.turn, Waiter.step, hfed, hunseen]

/-- **A waiter comes back neither too early nor too late.**  However the steps of the calls of a
recorder and those of a waiter follow each other, the counters tell the meals that have been
counted.  A waiter that has come back has, at some point, looked at counters that showed `least`
meals of each seat below `seats`, and they still show as many.  Once they do and every call that was
made is done, the waiter does not sleep with nothing unseen: given a turn, it comes back. -/
theorem waiter_neither_early_nor_asleep (seats least : ℕ) (r : Recorder) {w : Watch}
    (h : ReflTransGen (Step seats least) (begin r) w) :
    (∀ seat, w.recorder.mealsOf seat = r.mealsOf seat + Trace.mealsOf seat w.counted) ∧
    (w.waiter = .satisfied →
      (∃ earlier seen, ReflTransGen (Step seats least) (begin r) earlier ∧
        earlier.waiter = .checking seen ∧
        (∀ seat < seats, least ≤ earlier.recorder.mealsOf seat) ∧
        ReflTransGen (Step seats least) { earlier with waiter := .satisfied } w) ∧
      ∀ seat < seats, least ≤ w.recorder.mealsOf seat) ∧
    ((∀ c ∈ w.calls, c.stage = .finished) →
      (∀ seat < seats, least ≤ w.recorder.mealsOf seat) →
      w.waiter ≠ .suspended w.recorder.progress ∧
        w.waiter.turn seats least w.recorder = .satisfied) := by
  have hkept := kept_of_reaches h
  refine ⟨hkept.meals, fun hback => ⟨?_, Recorder.fed_iff.mp (hkept.fed hback)⟩,
    fun hdone hmeals => ?_⟩
  · obtain ⟨earlier, seen, hfirst, hlook, hfed, hlater⟩ := exists_check h hback
    exact ⟨earlier, seen, hfirst, hlook, Recorder.fed_iff.mp hfed, hlater⟩
  · have hfed := Recorder.fed_iff.mpr hmeals
    have hawake : w.waiter ≠ .suspended w.recorder.progress := by
      intro hsleeps
      obtain ⟨c, hc, hstage⟩ := hkept.owed hsleeps hfed
      rw [hdone c hc] at hstage
      cases hstage
    exact ⟨hawake, turn_eq_satisfied hfed hawake⟩

/-- Two seats eat while someone waits for a meal of each.  The look at the counters falls between
the two meals and misses the second one, which is counted before the first one is announced; both
announcements are unseen in the end, and two more steps bring the waiter back. -/
theorem waiter_neither_early_nor_asleep_at_two :
    let first : Event := ⟨0, .eating⟩
    let second : Event := ⟨1, .eating⟩
    let w : Watch := ⟨((Recorder.keeping.count first).count second).announce.announce,
      [⟨first, .finished⟩, ⟨second, .finished⟩], .suspended 0⟩
    let v : Watch := { w with waiter := .satisfied }
    ReflTransGen (Step 2 1) (begin .keeping) w ∧ (∀ c ∈ w.calls, c.stage = .finished) ∧
      (∀ seat < 2, 1 ≤ w.recorder.mealsOf seat) ∧
      w.waiter ≠ .suspended w.recorder.progress ∧
      ReflTransGen (Step 2 1) (begin .keeping) v ∧
      ∃ earlier seen, ReflTransGen (Step 2 1) (begin .keeping) earlier ∧
        earlier.waiter = .checking seen ∧ ∀ seat < 2, 1 ≤ earlier.recorder.mealsOf seat := by
  intro first second w v
  -- both calls begin, and the waiter takes note of the progress
  have hcalls : ReflTransGen (Step 2 1) (begin .keeping)
      ⟨.keeping, [⟨first, .called⟩, ⟨second, .called⟩], .checking 0⟩ :=
    ((ReflTransGen.refl.tail (.call _ first)).tail (.call _ second)).tail (.wait_to _ rfl)
  have hasleep : ReflTransGen (Step 2 1) (begin .keeping)
      ⟨Recorder.keeping.count first, [.count first, ⟨second, .called⟩], .suspended 0⟩ :=
    (hcalls.tail (.count _ [] [⟨second, .called⟩] first _)).tail (.wait_to _ (by decide))
  have hcounted : ReflTransGen (Step 2 1) (begin .keeping)
      ⟨(Recorder.keeping.count first).count second, [.count first, .count second],
        .suspended 0⟩ :=
    hasleep.tail (.count _ [.count first] [] second _)
  have hw : ReflTransGen (Step 2 1) (begin .keeping) w :=
    (hcounted.tail (.announce _ [] [.count second] first _)).tail
      (.announce _ [⟨first, .finished⟩] [] second _)
  have hawake : ReflTransGen (Step 2 1) (begin .keeping) { w with waiter := .checking 2 } :=
    hw.tail (.wait_to _ (by decide))
  have hv : ReflTransGen (Step 2 1) (begin .keeping) v := hawake.tail (.wait_to _ (by decide))
  have hdone : ∀ c ∈ w.calls, c.stage = .finished := by decide
  have hmeals : ∀ seat < 2, 1 ≤ w.recorder.mealsOf seat := by decide
  obtain ⟨earlier, seen, hfirst, hlook, hfed, -⟩ :=
    ((waiter_neither_early_nor_asleep 2 1 .keeping hv).2.1 rfl).1
  exact ⟨hw, hdone, hmeals, ((waiter_neither_early_nor_asleep 2 1 .keeping hw).2.2 hdone hmeals).1,
    hv, earlier, seen, hfirst, hlook, hfed⟩

end Watch

end DiningRing
