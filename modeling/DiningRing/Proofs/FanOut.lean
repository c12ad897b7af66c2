/-
# What reaches the leaves of a sink

A fan-out forwards every event to its members, and they to theirs, so that the leaves of a tree of
sinks receive all events however deep they lie.  A leaf is told by the way down to it
(`Sink.sinkAt`): recording changes what the leaves hold, never the tree, and the leaf at the end of
a way has received the events that the root has received (`Sink.sinkAt_recordAll`).

A recorder cannot keep counters for seats of any number whatsoever, and recording ends at a meal of
a seat for which it has no room.  Nothing else ends it (`Sink.tryRecordAll_eq_ok_iff`).

Main statement: `Sink.leaves_receive_all_events`.
-/
import DiningRing.Proofs.Recorders
import Mathlib.Data.Nat.Notation

namespace DiningRing

variable {s t : Sink} {r : Recorder} {e : Event} {events : List Event} {path : List ℕ}

/-! ### Meals in a list of events -/

namespace Trace

lemma eatingOrder_eq_map_filter (events : List Event) : eatingOrder events
    = (events.filter fun e => e.transition = .eating).map Event.seat :=
  rfl

lemma length_eatingOrder (events : List Event) :
    (eatingOrder events).length = events.countP fun e => e.transition = .eating := by
  rw [eatingOrder_eq_map_filter, List.length_map, List.countP_eq_length_filter]

lemma mealsOf_eq_countP (seat : ℕ) (events : List Event) : mealsOf seat events
    = events.countP fun e => e.transition = .eating ∧ e.seat = seat := by
  rw [mealsOf, eatingOrder_eq_map_filter, List.count, List.countP_map, List.countP_filter]
  refine List.countP_congr fun e _ => ?_
  simp [and_comm]

end Trace

namespace Recorder

/-- A recorder that has neither kept nor counted anything. -/
structure Blank (r : Recorder) : Prop where
  events : r.events = #[]
  meals : r.meals = #[]

lemma blank_keeping : keeping.Blank := ⟨rfl, rfl⟩

lemma blank_counting : counting.Blank := ⟨rfl, rfl⟩

/-- The answers of a recorder about the meals in some events. -/
structure Counts (r : Recorder) (events : List Event) : Prop where
  mealsOf : ∀ seat, r.mealsOf seat
    = events.countP fun e => e.transition = .eating ∧ e.seat = seat
  mealsPerSeat : ∀ seats, r.mealsPerSeat seats = (List.range seats).map fun seat =>
    events.countP fun e => e.transition = .eating ∧ e.seat = seat
  totalMeals : r.totalMeals = events.countP fun e => e.transition = .eating

/-- **A recorder that starts blank counts the meals of all events**, whether it keeps them or
not. -/
lemma Blank.counts (hr : r.Blank) (events : List Event) : (r.recordAll events).Counts events := by
  have hseat : ∀ seat, (r.recordAll events).mealsOf seat
      = events.countP fun e => e.transition = .eating ∧ e.seat = seat := by
    intro seat
    rw [mealsOf_recordAll, Recorder.mealsOf, hr.meals, Trace.mealsOf_eq_countP]
    exact Nat.zero_add _
  refine ⟨hseat, fun seats => ?_, ?_⟩
  · rw [Recorder.mealsPerSeat]
    exact List.map_congr_left fun seat _ => hseat seat
  · rw [totalMeals_recordAll, Recorder.totalMeals, hr.meals, Trace.length_eatingOrder]
    exact Nat.zero_add _

lemma Blank.events_recordAll (hr : r.Blank) (events : List Event) :
    (r.recordAll events).events.toList = if r.keepsEvents then events else [] := by
  rw [Recorder.events_recordAll, hr.events]
  rfl

end Recorder

namespace Sink

/-! ### The way down to a leaf -/

/-- The sinks to which a sink forwards. -/
def members : Sink → List Sink
  | fanout members => members
  | recorder _ | null | tracing => []

/-- The sink at the end of a way down, which at each fan-out goes to the member of a number. -/
def sinkAt (s : Sink) : List ℕ → Option Sink
  | [] => some s
  | i :: path => s.members[i]?.bind fun member => member.sinkAt path

lemma recordEach_eq_map (e : Event) (members : List Sink) :
    recordEach e members = members.map (record e) := by
  induction members with
  | nil => simp only [recordEach, List.map_nil]
  | cons s rest ih => simp only [recordEach, List.map_cons, ih]

lemma members_record (e : Event) (s : Sink) : (s.record e).members = s.members.map (record e) := by
  cases s with
  | fanout members => simp only [record, Sink.members, recordEach_eq_map]
  | recorder r | null | tracing => simp only [record, Sink.members, List.map_nil]

/-- Recording an event changes no way down, and the sink at the end of one receives the event. -/
lemma sinkAt_record (e : Event) (s : Sink) (path : List ℕ) :
    (s.record e).sinkAt path = (s.sinkAt path).map (record e) := by
  induction path generalizing s with
  | nil => rfl
  | cons i path ih =>
    rw [sinkAt, sinkAt, members_record, List.getElem?_map]
    cases s.members[i]? with
    | none => rfl
    | some member => exact ih member

/-- **A sink within a tree receives all events that the tree receives.** -/
theorem sinkAt_recordAll (s : Sink) (events : List Event) (path : List ℕ) :
    (s.recordAll events).sinkAt path = (s.sinkAt path).map fun s => s.recordAll events := by
  induction events generalizing s with
  | nil => exact Option.map_id'.symm
  | cons e events ih =>
    show ((s.record e).recordAll events).sinkAt path = _
    rw [ih, sinkAt_record, Option.map_map]
    rfl

/-! ### Where recording ends -/

/-- The sink after several events, or `error` with what is left of it at the first one that cannot
be recorded. -/
def tryRecordAll (s : Sink) (events : List Event) : Except Sink Sink :=
  events.foldlM (fun s e => s.tryRecord e) s

mutual

lemma breakOff_eq_none_iff (e : Event) (s : Sink) : breakOff e s = none ↔ s.recorders = [] := by
  cases s with
  | recorder r => simp [breakOff, recorders]
  | null | tracing => simp [breakOff, recorders]
  | fanout members => simpa [breakOff, recorders] using breakOffEach_eq_none_iff e members

lemma breakOffEach_eq_none_iff (e : Event) (members : List Sink) :
    breakOffEach e members = none ↔ recordersEach members = [] := by
  cases members with
  | nil => simp [breakOffEach, recordersEach]
  | cons s rest =>
    have hs := breakOff_eq_none_iff e s
    have hrest := breakOffEach_eq_none_iff e rest
    cases hbreak : breakOff e s with
    | none => simp [breakOffEach, recordersEach, hbreak, hs.mp hbreak, hrest]
    | some broken =>
      have hsome : s.recorders ≠ [] := fun h => by simp [hs.mpr h] at hbreak
      simp [breakOffEach, recordersEach, hbreak, hsome]

end

/-- Room for an event: it is no meal, or one of a seat for which there can be a counter, or
nothing counts it. -/
def HasRoom (s : Sink) (e : Event) : Prop :=
  e.transition = .eating → s.recorders ≠ [] → e.seat < Recorder.mostSeats

lemma hasRoom_record (e later : Event) (s : Sink) :
    (s.record e).HasRoom later ↔ s.HasRoom later := by
  rw [HasRoom, HasRoom, recorders_record, Ne, List.map_eq_nil_iff]

lemma tryRecord_of_hasRoom (h : s.HasRoom e) : s.tryRecord e = .ok (s.record e) := by
  have hnone :
      (if e.isMeal ∧ Recorder.mostSeats ≤ e.seat then breakOff e s else none) = none := by
    split_ifs with hfull
    · rw [breakOff_eq_none_iff]
      by_contra hrecorders
      exact absurd (h (beq_iff_eq.mp hfull.1) hrecorders) (Nat.not_lt.mpr hfull.2)
    · rfl
  rw [tryRecord, hnone]

lemma hasRoom_of_tryRecord (h : s.tryRecord e = .ok t) : s.HasRoom e := by
  intro hmeal hrecorders
  by_contra hfull
  have hbroken : breakOff e s ≠ none := fun h => hrecorders ((breakOff_eq_none_iff e s).mp h)
  obtain ⟨broken, hbreak⟩ := Option.ne_none_iff_exists'.mp hbroken
  have hcond : e.isMeal = true ∧ Recorder.mostSeats ≤ e.seat :=
    ⟨beq_iff_eq.mpr hmeal, Nat.not_lt.mp hfull⟩
  rw [tryRecord, if_pos hcond, hbreak] at h
  cases h

/-- **Events are recorded as long as there is room for them, and only so long.** -/
theorem tryRecordAll_eq_ok_iff : s.tryRecordAll events = .ok t ↔
    (∀ e ∈ events, s.HasRoom e) ∧ t = s.recordAll events := by
  induction events generalizing s with
  | nil =>
    show Except.ok s = Except.ok t ↔ _
    simp [recordAll, eq_comm]
  | cons e events ih =>
    rw [tryRecordAll, List.foldlM_cons, List.forall_mem_cons]
    constructor
    · intro h
      cases hrecord : s.tryRecord e with
      | error broken =>
        rw [hrecord] at h
        cases h
      | ok s' =>
        have hroom := hasRoom_of_tryRecord hrecord
        obtain rfl : s.record e = s' :=
          Except.ok.inj ((tryRecord_of_hasRoom hroom).symm.trans hrecord)
        rw [hrecord] at h
        obtain ⟨hlater, ht⟩ := ih.mp h
        exact ⟨⟨hroom, fun later hmem => (hasRoom_record e later s).mp (hlater later hmem)⟩, ht⟩
    · rintro ⟨⟨hroom, hlater⟩, ht⟩
      rw [tryRecord_of_hasRoom hroom]
      exact ih.mpr ⟨fun later hmem => (hasRoom_record e later s).mpr (hlater later hmem), ht⟩

/-! ### All leaves -/

/-- **Sinks fan out without loss.**  Wherever a tree of sinks has a new recorder, however deep it
lies and whatever lies beside it, after any events there is a recorder that counts their meals: of
each seat, of all seats up to any one, and in all.  If it keeps events it has all of them, and knows
the seats that have eaten in their order; if it only counts it has none.  Recording ends early only
at a meal of a seat for which a recorder has no room. -/
theorem leaves_receive_all_events (s : Sink) (events : List Event) :
    (∀ path, s.sinkAt path = some (.recorder .keeping) →
      ∃ r, (s.recordAll events).sinkAt path = some (.recorder r) ∧ r.Counts events ∧
        r.events.toList = events ∧
        r.eatingOrder = (events.filter fun e => e.transition = .eating).map Event.seat) ∧
    (∀ path, s.sinkAt path = some (.recorder .counting) →
      ∃ r, (s.recordAll events).sinkAt path = some (.recorder r) ∧ r.Counts events ∧
        r.events.toList = [] ∧ r.eatingOrder = []) ∧
    ∀ t, s.tryRecordAll events = .ok t ↔ t = s.recordAll events ∧
      ∀ e ∈ events, e.transition = .eating → s.recorders ≠ [] → e.seat < Recorder.mostSeats := by
  have hleaf : ∀ {path r}, s.sinkAt path = some (.recorder r) →
      (s.recordAll events).sinkAt path = some (.recorder (r.recordAll events)) := by
    intro path r hpath
    rw [sinkAt_recordAll, hpath, Option.map_some, recordAll_recorder]
  refine ⟨fun path hpath => ⟨_, hleaf hpath, Recorder.blank_keeping.counts events, ?_, ?_⟩,
    fun path hpath => ⟨_, hleaf hpath, Recorder.blank_counting.counts events, ?_, ?_⟩,
    fun t => tryRecordAll_eq_ok_iff.trans and_comm⟩
  · exact Recorder.blank_keeping.events_recordAll events
  · rw [Recorder.eatingOrder, Recorder.blank_keeping.events_recordAll]
    exact Trace.eatingOrder_eq_map_filter events
  · exact Recorder.blank_counting.events_recordAll events
  · rw [Recorder.eatingOrder, Recorder.blank_counting.events_recordAll]
    rfl

/-- A tree of three storeys with a recorder that counts at the top, and one that keeps events at the
bottom.  Seats five and two eat, and nobody between them or beyond. -/
theorem leaves_receive_all_events_three_deep :
    let s : Sink := .fanout [.recorder .counting,
      .fanout [.null, .fanout [.tracing, .recorder .keeping]]]
    let events : List Event := [⟨5, .waiting⟩, ⟨5, .eating⟩, ⟨2, .eating⟩, ⟨5, .eating⟩]
    (s.sinkAt [1, 1, 1] = some (.recorder .keeping) ∧
      ∃ r, (s.recordAll events).sinkAt [1, 1, 1] = some (.recorder r) ∧
        r.events.toList = events ∧ r.eatingOrder = [5, 2, 5] ∧ r.mealsOf 5 = 2 ∧
        r.mealsPerSeat 4 = [0, 0, 1, 0] ∧ r.totalMeals = 3) ∧
    (s.sinkAt [0] = some (.recorder .counting) ∧
      ∃ r, (s.recordAll events).sinkAt [0] = some (.recorder r) ∧
        r.events.toList = [] ∧ r.eatingOrder = [] ∧ r.mealsOf 9 = 0 ∧
        r.mealsPerSeat 6 = [0, 0, 1, 0, 0, 2] ∧ r.totalMeals = 3) ∧
    s.tryRecordAll events = .ok (s.recordAll events) := by
  intro s events
  obtain ⟨hkeeping, hcounting, hroom⟩ := leaves_receive_all_events s events
  obtain ⟨r, hr, hcounts, hevents, horder⟩ := hkeeping [1, 1, 1] rfl
  obtain ⟨r', hr', hcounts', hevents', horder'⟩ := hcounting [0] rfl
  refine ⟨⟨rfl, r, hr, hevents, horder, hcounts.mealsOf 5, hcounts.mealsPerSeat 4,
    hcounts.totalMeals⟩, ⟨rfl, r', hr', hevents', horder', hcounts'.mealsOf 9,
    hcounts'.mealsPerSeat 6, hcounts'.totalMeals⟩, (hroom _).mpr ⟨rfl, fun e he _ _ => ?_⟩⟩
  have hseat : ∀ e ∈ events, e.seat ≤ 5 := by decide
  exact Nat.lt_of_le_of_lt (hseat e he) (by decide)

end Sink

end DiningRing
