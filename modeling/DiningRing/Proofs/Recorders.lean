/-
# What recorders have kept

A sink is a tree, and its recorders are its leaves: whatever the sink receives, each recorder
receives (`Sink.recorders_recordAll`).  A recorder that keeps events then has them all, in
order, after those it had before; one that only counts has none.  Either counts how often each
seat has started to eat (`Recorder.mealsOf_recordAll`) and how often all seats have together
(`Recorder.totalMeals_recordAll`).
-/
import DiningRing.Trace.Sink
import Mathlib.Algebra.BigOperators.Group.List.Basic
import Mathlib.Algebra.Ring.Nat
import Mathlib.Tactic.Lemma
import Mathlib.Tactic.SplitIfs

namespace DiningRing

/-! ### The events of a recorder -/

namespace Recorder

/-- The recorder after several events. -/
def recordAll (r : Recorder) (events : List Event) : Recorder :=
  events.foldl (fun r e => r.record e) r

lemma keepsEvents_record (r : Recorder) (e : Event) : (r.record e).keepsEvents = r.keepsEvents := by
  unfold record
  split_ifs <;> rfl

lemma events_record (r : Recorder) (e : Event) : (r.record e).events = r.kept e := by
  unfold record
  split_ifs <;> rfl

lemma keepsEvents_recordAll (r : Recorder) (events : List Event) :
    (r.recordAll events).keepsEvents = r.keepsEvents := by
  induction events generalizing r with
  | nil => rfl
  | cons e events ih => exact (ih (r.record e)).trans (keepsEvents_record r e)

/-- **A recorder keeps all events or none.** -/
theorem events_recordAll (r : Recorder) (events : List Event) :
    (r.recordAll events).events.toList
      = r.events.toList ++ if r.keepsEvents then events else [] := by
  induction events generalizing r with
  | nil => simp [recordAll]
  | cons e events ih =>
    show ((r.record e).recordAll events).events.toList = _
    rw [ih, keepsEvents_record, events_record, kept]
    split_ifs with hkeeps
    · simp
    · rfl

end Recorder

/-! ### The meals of a recorder -/

namespace Trace

lemma eatingOrder_append (events later : List Event) :
    eatingOrder (events ++ later) = eatingOrder events ++ eatingOrder later := by
  simp [eatingOrder]

lemma mealsOf_append (seat : Nat) (events later : List Event) :
    mealsOf seat (events ++ later) = mealsOf seat events + mealsOf seat later := by
  rw [mealsOf, eatingOrder_append, List.count_append, mealsOf, mealsOf]

lemma mealsOf_singleton (seat : Nat) (e : Event) :
    mealsOf seat [e] = if e.isMeal ∧ e.seat = seat then 1 else 0 := by
  cases h : e.isMeal <;> simp [mealsOf, eatingOrder, h, List.count_singleton]

/-- The meals of a seat are those among its own transitions. -/
lemma count_ofSeat (seat : Nat) (events : List Event) :
    (ofSeat seat events).count .eating = mealsOf seat events := by
  induction events with
  | nil => rfl
  | cons e events ih =>
    rw [← List.singleton_append, mealsOf_append, ← ih, mealsOf_singleton, ofSeat, ofSeat,
      List.filter_append, List.map_append, List.count_append]
    congr 1
    by_cases hseat : e.seat = seat
    · simp [hseat, Event.isMeal, List.count_singleton]
    · simp [hseat]

end Trace

namespace Recorder

/-- Counters that reach further count nothing more. -/
lemma getD_reaching (meals : Array Nat) (seat other : Nat) :
    (reaching meals seat).getD other 0 = meals.getD other 0 := by
  simp only [reaching, Array.getD_eq_getD_getElem?, Array.getElem?_append]
  split_ifs with hlt
  · rfl
  · rw [Array.getElem?_eq_none (Nat.le_of_not_lt hlt), Array.getElem?_replicate]
    split_ifs <;> rfl

lemma lt_size_reaching (meals : Array Nat) (seat : Nat) : seat < (reaching meals seat).size := by
  simp only [reaching, Array.size_append, Array.size_replicate]
  omega

lemma meals_record (r : Recorder) (e : Event) : (r.record e).meals
    = if e.isMeal then (reaching r.meals e.seat).modify e.seat (· + 1) else r.meals := by
  unfold record
  split_ifs with h <;> simp [announce, count, h]

lemma mealsOf_record (r : Recorder) (e : Event) (seat : Nat) :
    (r.record e).mealsOf seat = r.mealsOf seat + Trace.mealsOf seat [e] := by
  rw [Trace.mealsOf_singleton, mealsOf, meals_record]
  by_cases hmeal : e.isMeal = true
  · have hlt := lt_size_reaching r.meals e.seat
    rw [if_pos hmeal, mealsOf, ← getD_reaching r.meals e.seat]
    simp only [Array.getD_eq_getD_getElem?, Array.getElem?_modify, hmeal, true_and]
    split_ifs with hseat
    · subst hseat
      simp [hlt]
    · rfl
  · simp [hmeal, mealsOf]

/-- **A recorder counts the meals of each seat**, whether it keeps events or not. -/
theorem mealsOf_recordAll (r : Recorder) (events : List Event) (seat : Nat) :
    (r.recordAll events).mealsOf seat = r.mealsOf seat + Trace.mealsOf seat events := by
  induction events generalizing r with
  | nil => rfl
  | cons e events ih =>
    show ((r.record e).recordAll events).mealsOf seat = _
    rw [ih, mealsOf_record, Nat.add_assoc, ← Trace.mealsOf_append]
    rfl

/-- Counters that reach further count no more in all. -/
lemma sum_reaching (meals : Array Nat) (seat : Nat) :
    (reaching meals seat).toList.sum = meals.toList.sum := by
  rw [reaching, Array.toList_append, Array.toList_replicate, List.sum_append_nat,
    List.sum_replicate_nat, Nat.mul_zero, Nat.add_zero]

lemma sum_modify_add_one (meals : List Nat) (seat : Nat) (hlt : seat < meals.length) :
    (meals.modify seat (· + 1)).sum = meals.sum + 1 := by
  induction meals generalizing seat with
  | nil => cases hlt
  | cons first rest ih =>
    cases seat with
    | zero =>
      rw [List.modify_zero_cons, List.sum_cons, List.sum_cons, Nat.add_right_comm]
    | succ seat =>
      rw [List.modify_succ_cons, List.sum_cons, List.sum_cons, ih seat (Nat.lt_of_succ_lt_succ hlt),
        Nat.add_assoc]

lemma totalMeals_record (r : Recorder) (e : Event) :
    (r.record e).totalMeals = r.totalMeals + (Trace.eatingOrder [e]).length := by
  rw [totalMeals, totalMeals, ← List.sum_eq_foldr, ← List.sum_eq_foldr, meals_record]
  cases hmeal : e.isMeal with
  | true =>
    rw [if_pos rfl, Array.toList_modify, sum_modify_add_one _ _ (lt_size_reaching r.meals e.seat),
      sum_reaching]
    simp [Trace.eatingOrder, hmeal]
  | false => simp [Trace.eatingOrder, hmeal]

/-- **A recorder counts all meals.** -/
theorem totalMeals_recordAll (r : Recorder) (events : List Event) :
    (r.recordAll events).totalMeals = r.totalMeals + (Trace.eatingOrder events).length := by
  induction events generalizing r with
  | nil => rfl
  | cons e events ih =>
    show ((r.record e).recordAll events).totalMeals = _
    rw [ih, totalMeals_record, Nat.add_assoc, ← List.length_append, ← Trace.eatingOrder_append]
    rfl

end Recorder

/-! ### The recorders of a tree -/

namespace Sink

mutual

lemma recorders_record (e : Event) (s : Sink) :
    (s.record e).recorders = s.recorders.map fun r => r.record e := by
  cases s with
  | recorder r => simp only [record, recorders, List.map_cons, List.map_nil]
  | null | tracing => simp only [record, recorders, List.map_nil]
  | fanout members => simpa only [record, recorders] using recordersEach_recordEach e members

lemma recordersEach_recordEach (e : Event) (members : List Sink) :
    recordersEach (recordEach e members) = (recordersEach members).map fun r => r.record e := by
  cases members with
  | nil => simp only [recordEach, recordersEach, List.map_nil]
  | cons s rest =>
    simp only [recordEach, recordersEach, List.map_append]
    rw [recorders_record e s, recordersEach_recordEach e rest]

end

/-- **Each recorder of a sink receives what the sink receives.** -/
theorem recorders_recordAll (s : Sink) (events : List Event) :
    (s.recordAll events).recorders = s.recorders.map fun r => r.recordAll events := by
  induction events generalizing s with
  | nil => exact (List.map_id' _).symm
  | cons e events ih =>
    show ((s.record e).recordAll events).recorders = _
    rw [ih, recorders_record, List.map_map]
    rfl

/-- A sink that is a recorder stays one. -/
lemma recordAll_recorder (r : Recorder) (events : List Event) :
    (recorder r).recordAll events = recorder (r.recordAll events) := by
  induction events generalizing r with
  | nil => rfl
  | cons e events ih => exact ih (r.record e)

/-- The seats that have eaten, as a recorder knows them that was new at the beginning: all of
them in order, or none if it only counts. -/
lemma eatingOrder_of_mem_recorders {s : Sink} {events : List Event} {r : Recorder}
    (hnew : ∀ r ∈ s.recorders, r.events = #[]) (hr : r ∈ (s.recordAll events).recorders) :
    r.eatingOrder = Trace.eatingOrder events ∨ r.eatingOrder = [] := by
  rw [recorders_recordAll, List.mem_map] at hr
  obtain ⟨r₀, hr₀, rfl⟩ := hr
  rw [Recorder.eatingOrder, Recorder.events_recordAll, hnew r₀ hr₀]
  cases r₀.keepsEvents with
  | true => exact .inl rfl
  | false => exact .inr rfl

/-- What a recorder has kept that was new at the beginning: the meals of each seat, and all events
if it keeps events. -/
lemma kept_of_mem_recorders {s : Sink} {events : List Event} {r : Recorder}
    (hnew : ∀ r ∈ s.recorders, r.events = #[] ∧ r.meals = #[])
    (hr : r ∈ (s.recordAll events).recorders) :
    (∀ seat, r.mealsOf seat = Trace.mealsOf seat events) ∧
      (r.keepsEvents = true → r.events.toList = events) := by
  rw [recorders_recordAll, List.mem_map] at hr
  obtain ⟨r₀, hr₀, rfl⟩ := hr
  obtain ⟨hevents, hmeals⟩ := hnew r₀ hr₀
  refine ⟨fun seat => ?_, fun hkeeps => ?_⟩
  · rw [Recorder.mealsOf_recordAll, Recorder.mealsOf, hmeals]
    exact Nat.zero_add _
  · rw [Recorder.keepsEvents_recordAll] at hkeeps
    rw [Recorder.events_recordAll, hevents, if_pos hkeeps]
    rfl

end Sink

end DiningRing
