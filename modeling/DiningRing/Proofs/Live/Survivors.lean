/-
# A ring that some have left

The diners of a ring run, and any of them may leave at any time: while it sleeps, while it waits
for a fork, with forks in its hands or with lifted ones.  Those who are still there may then find
that a neighbour is gone, and leave in their turn.  As long as both diners at an edge are there,
the edge keeps its one fork (`Table.Running.follow`): whoever loses a fork leaves the table with
it.

No survivor is stuck while somebody is gone (`Table.Running.exists_canMove`).  A diner who can never
take a turn again waits for a fork from a neighbour who is there.  Two who are stuck do not wait
for each other, since the fork between them is with one of them or on its way.  So the neighbour
of a stuck diner, being stuck as well, waits on the same side, and so on round the table: then
nobody is gone.
-/
import DiningRing.Proofs.Live.Endings

namespace DiningRing

namespace Table

variable {n i : ℕ} {t : Table} {p : Philosopher} {side : Side}

/-! ### What happens at a table that diners may leave -/

/-- What can happen next at a table that anybody may leave. -/
inductive Moment where
  /-- A seat is given a turn, up to its next point of waiting. -/
  | turn (seat : ℕ)
  /-- The clock is set. -/
  | time (clock : ℕ)
  /-- The philosopher at a seat leaves. -/
  | leave (seat : ℕ)
deriving DecidableEq, Repr

/-- The table after a moment. -/
def happen (t : Table) : Moment → Table
  | .turn seat =>
    match t.step seat with
    | some turn => turn.table
    | none => t
  | .time clock => t.withClock clock
  | .leave seat => t.drop seat

/-- The table after several moments. -/
def follow (t : Table) (moments : List Moment) : Table := moments.foldl happen t

/-- Everybody who is at the table runs until they leave it, and two neighbours who are there share
one fork. -/
structure Running (n : ℕ) (t : Table) : Prop where
  linked : t.Linked n
  forks : ∀ e < n, t.Joined n e → t.view.forksOn n e = 1
  running : ∀ i p, t.philosopher? i = some p → ∃ call, p.call = some call ∧ call.leaves = true

lemma Running.exists_call (ht : t.Running n) {turn : Turn} (hstep : t.step i = some turn) :
    ∃ p call, t.philosopher? i = some p ∧ call.leaves = true ∧ Turned n t i p call turn := by
  obtain ⟨p, call, hp, hcall, hturn⟩ := exists_call_of_step hstep
  obtain ⟨call', hcall', hleaves⟩ := ht.running i p hp
  obtain rfl := Option.some.inj (hcall.symm.trans hcall')
  exact ⟨p, call, hp, hleaves, ht.linked.turned hp hcall hturn⟩

/-- **A turn leaves a fork to any two neighbours who are still there.** -/
lemma Running.turn (ht : t.Running n) {turn : Turn} (hstep : t.step i = some turn) :
    turn.table.Running n := by
  obtain ⟨p, call, hp, hleaves, hturned⟩ := ht.exists_call hstep
  refine ⟨hturned.linked, fun e he hjoined => ?_, fun j q hq => ?_⟩
  · rw [hturned.forks e he hjoined]
    · exact ht.forks e he (hturned.joined hp hjoined)
    · -- whoever loses the fork has left
      rintro ⟨hending, rfl⟩
      exact hjoined.1 (hturned.gone hleaves hending)
  · by_cases hji : j = i
    · subst hji
      cases hending : turn.ending with
      | none =>
        obtain ⟨q', call', hq', hcall', hleaves', -⟩ := hturned.going hending
        obtain rfl := Option.some.inj (hq.symm.trans hq')
        exact ⟨call', hcall', hleaves'.trans hleaves⟩
      | some result =>
        rw [hturned.gone hleaves hending] at hq
        cases hq
    · rw [hturned.others j hji] at hq
      exact ht.running j q hq

/-- **So does anybody who leaves.** -/
lemma Running.leave (ht : t.Running n) (i : ℕ) : (t.drop i).Running n := by
  refine ⟨ht.linked.drop i, fun e he hjoined => ?_, fun j q hq => ?_⟩
  · simp only [Joined, philosopher?_drop, ne_eq, ite_eq_left_iff, not_forall] at hjoined
    obtain ⟨⟨hleft, hl⟩, ⟨hright, hr⟩⟩ := hjoined
    rw [ht.linked.forksOn_drop he hleft hright]
    exact ht.forks e he ⟨hl, hr⟩
  · rw [philosopher?_drop] at hq
    split_ifs at hq
    exact ht.running j q hq

/-- **Whatever happens**, two neighbours who are still there share one fork. -/
theorem Running.follow (ht : t.Running n) (moments : List Moment) :
    (t.follow moments).Running n := by
  induction moments generalizing t with
  | nil => exact ht
  | cons m moments ih =>
    refine ih (t := t.happen m) ?_
    cases m with
    | turn seat =>
      rw [happen]
      cases hstep : t.step seat with
      | none => exact ht
      | some turn => exact ht.turn hstep
    | time clock => exact ⟨ht.linked.withClock clock, ht.forks, ht.running⟩
    | leave seat => exact ht.leave seat

/-! ### Stuck diners -/

/-- A philosopher lacks the fork on a side, which is not on its way to it; the neighbour there is
at the table. -/
structure Wants (n : ℕ) (t : Table) (i : ℕ) (side : Side) : Prop where
  present : t.philosopher? i ≠ none
  lacks : t.view.hand i side = false
  missing : t.view.slot (Slot.inbound n i side) = false
  neighbor : t.philosopher? (Seat.neighbor n i side) ≠ none

/-- Neighbours do not both want the fork between them. -/
lemma Running.not_both_want (ht : t.Running n) (hi : i < n) (hwants : t.Wants n i side) :
    ¬ t.Wants n (Seat.neighbor n i side) side.opposite := by
  intro hother
  have hone := ht.forks _ (Seat.edge_lt hi side)
    ((joined_edge hi side).mpr ⟨hwants.present, hwants.neighbor⟩)
  rw [RingState.forksOn_edge _ hi, hwants.lacks, hwants.missing, hother.lacks,
    Slot.outbound_eq_inbound hi, hother.missing] at hone
  cases hone

/-- The philosopher at a seat can take a turn, now or when it wakes. -/
def CanMove (t : Table) (i : ℕ) : Prop :=
  (t.step i).isSome = true ∨ ∃ wake, t.wakeOf? i = some wake ∧ t.clock < wake ∧
    ((t.withClock wake).step i).isSome = true

/-- A philosopher who cannot take a turn, and does not sleep, wants a fork. -/
lemma Running.exists_wants (ht : t.Running n) (hp : t.philosopher? i = some p)
    (hstuck : ¬ t.CanMove i) : ∃ side, t.Wants n i side := by
  obtain ⟨call, hcall, -⟩ := ht.running i p hp
  have hstep : t.step i = none := by
    by_contra hsome
    exact hstuck (.inl (Option.isSome_iff_ne_none.mpr hsome))
  have hpresent : t.philosopher? i ≠ none := by
    rw [hp]
    exact Option.some_ne_none p
  cases ht.linked.waits hp hcall hstep with
  | sleep _ hasleep hearly =>
    refine absurd (.inr ⟨_, ?_, hearly, ?_⟩) hstuck
    · simp only [wakeOf?, hp, hcall, Option.bind_some, hasleep]
    · exact ht.linked.step_isSome_of_sleep hp hcall hasleep
  | @fork side rest hagenda hlacks hmissing hneighbor =>
    have hreturns := (ht.linked.orderly i p call hp hcall).returns
    rw [hagenda] at hreturns
    refine ⟨side, hpresent, ?_, by rw [slot_view, hmissing], hneighbor⟩
    rw [hand_view hp hcall, hlacks, (hreturns.of_keeps rfl).1]
    cases side <;> rfl
  | room hagenda =>
    -- the fork that is to be handed back is the only one of its edge
    have hsome := ht.linked.step_isSome_of_give hp hcall hagenda fun hjoined =>
      (ht.forks _ (Seat.edge_lt (ht.linked.lt hp) _) hjoined).le
    rw [hstep] at hsome
    cases hsome

/-- **No survivor is stuck** while somebody is gone. -/
theorem Running.exists_canMove (ht : t.Running n) {j : ℕ} (hi : i < n)
    (hpresent : t.philosopher? i ≠ none) (hj : j < n) (hgone : t.philosopher? j = none) :
    ∃ k < n, t.philosopher? k ≠ none ∧ t.CanMove k := by
  by_contra hnobody
  have hwants : ∀ k < n, t.philosopher? k ≠ none → ∃ side, t.Wants n k side := by
    intro k hk hpk
    obtain ⟨p, hp⟩ := Option.ne_none_iff_exists'.mp hpk
    exact ht.exists_wants hp fun hmove => hnobody ⟨k, hk, hpk, hmove⟩
  obtain ⟨side, hside⟩ := hwants i hi hpresent
  -- whoever is wanted from wants on the same side, and so on round the table
  have hround : ∀ k < n, t.Wants n k side := by
    refine Seat.forall_of_neighbor hi hside side fun k hk hk' => ?_
    obtain ⟨other, hother⟩ := hwants _ (Slot.neighbor_lt hk side) hk'.neighbor
    by_cases hsame : other = side
    · exact hsame ▸ hother
    · have hopposite : other = side.opposite := by
        cases other <;> cases side <;> first | rfl | exact absurd rfl hsame
      exact absurd (hopposite ▸ hother) (ht.not_both_want hk hk')
  exact (hround j hj).present hgone

end Table

/-- Everybody runs at a table at which all have been asked to and nobody has had a turn. -/
lemma Ring.running_runBelow {r : Ring} {pacing : Pacing} {l : Lanes} (hn : 2 ≤ r.seats)
    (hl : r.Preloaded r.seats l) : ((r.laid pacing l).runBelow r.seats).Running r.seats := by
  refine ⟨(Ring.linked_laid hl).runBelow _, fun e he _ => ?_, fun i p hp => ?_⟩
  · rw [Ring.view_runBelow hl]
    exact (Ring.sound_initial hn).oneFork e he
  · have hi := ((Ring.linked_laid hl).runBelow r.seats).lt hp
    rw [Ring.philosopher?_runBelow hi] at hp
    obtain rfl := Option.some.inj hp
    exact ⟨_, rfl, rfl⟩

/-- **No survivor hangs.**  Everybody at a ring of at least two seats runs, under either plan, and
whatever happens then: seats get their turns in any order and at any times, and anybody may leave
at any time.  As long as somebody is gone and somebody is there, somebody who is there can take a
turn, now or when they wake.  Whoever comes to an end has left the table; and whoever stops
because a fork could not be received or handed back on some side has lost the neighbour on that
side. -/
theorem no_survivor_hangs {n : ℕ} (hn : 2 ≤ n) (plan : Plan) (pacing : Pacing) :
    let r : Ring := ⟨n, plan⟩
    Ring.lay n plan = .ok r ∧ ∃ table, r.seat pacing = .ok table ∧
      ∀ moments : List Table.Moment,
        let t := (table.runBelow n).follow moments
        ((∃ i < n, t.philosopher? i ≠ none) → (∃ j < n, t.philosopher? j = none) →
          ∃ k < n, t.philosopher? k ≠ none ∧ t.CanMove k) ∧
        ∀ i turn, t.step i = some turn →
          (turn.ending ≠ none → turn.table.philosopher? i = none) ∧
          ∀ seat side, turn.ending = some (.error (.endOfStream seat side)) ∨
              turn.ending = some (.error (.channelClosed seat side)) →
            seat = i ∧ t.philosopher? (Seat.neighbor n seat side) = none := by
  intro r
  obtain ⟨l, hseat, hl⟩ := r.exists_laid pacing
  refine ⟨Ring.lay_eq_ok hn plan, _, hseat, fun moments => ?_⟩
  have hrunning : (((r.laid pacing l).runBelow n).follow moments).Running n :=
    (Ring.running_runBelow hn hl).follow moments
  refine ⟨?_, fun i turn hstep => ?_⟩
  · rintro ⟨i, hi, hpresent⟩ ⟨j, hj, hgone⟩
    exact hrunning.exists_canMove hi hpresent hj hgone
  · obtain ⟨p, call, hp, hleaves, hturned⟩ := hrunning.exists_call hstep
    refine ⟨fun hending => ?_, fun seat side hending => ?_⟩
    · obtain ⟨result, hresult⟩ := Option.ne_none_iff_exists'.mp hending
      exact hturned.gone hleaves hresult
    · rcases hending with hending | hending
      · cases hturned.cause _ hending with
        | lacks hlacks => cases hlacks
        | endOfStream _ hgone => exact ⟨rfl, hgone⟩
      · cases hturned.cause _ hending with
        | lacks hlacks => cases hlacks
        | channelClosed _ hgone => exact ⟨rfl, hgone⟩

/-- At a table of three the first diner leaves, for whose fork the last one waits.  The last one
can take a turn, and finds that nobody will send the fork any more. -/
theorem no_survivor_hangs_at_three : 2 ≤ 3 ∧
    ∃ table, Ring.seat ⟨3, .reversedLast⟩ ⟨0, 0⟩ = .ok table ∧
      let t := (table.runBelow 3).follow [.turn 2, .leave 0]
      t.philosopher? 0 = none ∧ t.philosopher? 2 ≠ none ∧
        (∃ k < 3, t.philosopher? k ≠ none ∧ t.CanMove k) ∧
        ∃ turn, t.step 2 = some turn ∧ turn.ending = some (.error (.endOfStream 2 .right)) ∧
          turn.table.philosopher? 2 = none ∧
          t.philosopher? (Seat.neighbor 3 2 .right) = none := by
  obtain ⟨-, table, hseat, h⟩ := no_survivor_hangs (n := 3) (by decide) .reversedLast ⟨0, 0⟩
  obtain rfl : Ring.laid ⟨3, .reversedLast⟩ ⟨0, 0⟩ (.ofEdges 3) = table := by
    injection hseat
  obtain ⟨hmove, hends⟩ := h [.turn 2, .leave 0]
  have hrun : (fun t : Table => t.philosopher? 0 = none ∧ t.philosopher? 2 ≠ none ∧
      (t.step 2).bind Turn.ending = some (.error (.endOfStream 2 .right)))
        (((Ring.laid ⟨3, .reversedLast⟩ ⟨0, 0⟩ (.ofEdges 3)).runBelow 3).follow
          [.turn 2, .leave 0]) := by
    decide +kernel
  obtain ⟨hgone, hthere, hfails⟩ := hrun
  obtain ⟨turn, hstep, hending⟩ := Option.bind_eq_some_iff.mp hfails
  obtain ⟨hleft, hcause⟩ := hends 2 turn hstep
  refine ⟨by decide, _, hseat, hgone, hthere, ?_, turn, hstep, hending, ?_, ?_⟩
  · exact hmove ⟨2, by decide, hthere⟩ ⟨0, by decide, hgone⟩
  · exact hleft (by rw [hending]; exact Option.some_ne_none _)
  · exact (hcause 2 .right (.inl hending)).2

end DiningRing
