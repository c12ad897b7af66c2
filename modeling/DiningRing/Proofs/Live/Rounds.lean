/-
# Single rounds without pauses

A philosopher who never pauses and is asked for one round goes from one place of rest to the next
with every turn, as one does who goes through rounds without end, except that the round ends when
the second fork has been handed back.  It may begin while the philosopher already waits, with a
fork in hand, since an earlier round may have been given up there.

For what the table shows, each turn is a path on which only this seat moves; the last one, and
no other, passes the turn on (`Table.Linked.advances`).
-/
import DiningRing.Proofs.Live.Endings
import DiningRing.Proofs.Deadlock

namespace DiningRing

/-! ### Turns that a path passes on -/

/-- The turns that some moves pass on. -/
def passes (h : List Move) : ℕ := (h.map fun m => m.action.passes).sum

lemma passes_append (h k : List Move) : passes (h ++ k) = passes h + passes k := by
  simp [passes]

/-- Whoever acts alone passes on no turn. -/
lemma Diner.Alone.passes_eq_zero {d e : Diner} {as : List Action} (h : d.Alone as e) (i : ℕ) :
    passes (as.map (Move.mk i)) = 0 := by
  induction h with
  | rest => rfl
  | act hwilling _ ih =>
    rw [List.map_cons, ← List.singleton_append, passes_append, ih]
    cases hwilling <;> rfl

namespace Ring

open RingState (Sound Turn Starved)

variable {r : Ring} {s t : RingState} {i k : ℕ} {h : List Move}

/-- **A path goes on to the next seats as often as it passes on a turn**, and only a seat in its
turn does so. -/
theorem Path.turn (hp : r.Path s h t) (hs : s.Sound r.seats) (hturn : s.Turn r.seats k)
    (hown : ∀ m ∈ h, m.seat = i) :
    t.Turn r.seats (k + passes h) ∧ (passes h ≠ 0 → i = k % r.seats) := by
  induction hp generalizing k with
  | nil => exact ⟨hturn, fun h => absurd rfl h⟩
  | @cons s t j a h hj hready _ ih =>
    obtain ⟨rfl, hown⟩ := List.forall_mem_cons.mp hown
    obtain ⟨hlater, hseat⟩ := ih (sound_perform hs hj hready) (turn_perform hturn hs hj hready) hown
    have hpasses : passes (⟨j, a⟩ :: h) = a.passes + passes h := rfl
    rw [hpasses]
    refine ⟨by rwa [Nat.add_assoc] at hlater, fun hne => ?_⟩
    by_cases ha : a.passes = 0
    · rw [ha, Nat.add_zero] at hseat
      rw [ha, Nat.zero_add] at hne
      exact hseat hne
    · cases hready with
      | give side hphase => exact hturn.busy j hj (by rw [hphase]; rfl)
      | startWaiting | take | eat | finish => exact absurd rfl ha

/-- Without right forks no turn is passed on. -/
lemma Path.starved (hp : r.Path s h t) (hs : s.Starved r.seats) :
    t.Starved r.seats ∧ passes h = 0 := by
  induction hp with
  | nil => exact ⟨hs, rfl⟩
  | @cons s t j a h hj hready _ ih =>
    obtain ⟨hstarved, hpasses⟩ := ih (starved_perform hs hj hready).1
    refine ⟨hstarved, ?_⟩
    have hcons : passes (⟨j, a⟩ :: h) = a.passes + passes h := rfl
    rw [hcons, hpasses]
    rcases hs.action_of_ready hj hready with rfl | rfl <;> rfl

end Ring

/-! ### Places of a round -/

namespace Philosopher

open Instr

variable {p : Philosopher} {call : Call} {r : Ring} {i : ℕ}

/-- The philosopher of seat `i` reaches for its forks as the plan says, and never pauses. -/
structure Swift (r : Ring) (i : ℕ) (p : Philosopher) : Prop where
  order : p.order = r.order i
  pacing : p.pacing = ⟨0, 0⟩

/-- Where a philosopher is in a round that it has been asked for: at the beginning, when it is idle
or already waits, or at a place where it has to wait. -/
inductive InRound (p : Philosopher) (call : Call) : Prop where
  | start (phase : p.diner.phase.busy = false) (lifted : call.lifted = .empty)
      (awake : call.wake = none) (agenda : call.agenda = round p.pacing p.order)
  | rest (rests : p.Rests call.lifted call.agenda) (stalled : p.Stalled call)

/-- Whoever never pauses does not wait for the clock. -/
lemma Rests.pauses_eq_false {lifted : Hands} {agenda : List Instr} (h : p.Rests lifted agenda)
    (hstalls : p.Stalls agenda) (hswift : p.Swift r i) : pauses agenda = false := by
  have hthink : p.pacing.think = 0 := by rw [hswift.pacing]
  have heat : p.pacing.eat = 0 := by rw [hswift.pacing]
  cases h with
  | thinking | eating =>
    -- a pause that takes no time is no place to wait
    simp only [hthink, heat] at hstalls
    cases hstalls
  | reachingFirst | reachingSecond | givingLeft | givingRight => rfl

lemma InRound.wake_eq_none (h : p.InRound call) (hswift : p.Swift r i) : call.wake = none := by
  cases h with
  | start _ _ hawake => exact hawake
  | rest hrests hstalled =>
    obtain ⟨hstalls, hwakes⟩ := hstalled
    rw [hrests.pauses_eq_false hstalls hswift] at hwakes
    exact Option.isNone_iff_eq_none.mp (Option.isSome_eq_false_iff.mp hwakes)

/-- Whoever is to take a fork waits. -/
lemma InRound.phase_of_acquire {side : Side} {rest : List Instr} (h : p.InRound call)
    (hagenda : call.agenda = .acquire side :: rest) : p.diner.phase = .waiting := by
  obtain ⟨agenda, repeats, leaves, lifted, wake⟩ := call
  obtain rfl : agenda = _ := hagenda
  cases h with
  | start _ _ _ hstart => cases hstart
  | rest hrests =>
    cases hrests with
    | reachingFirst hphase | reachingSecond hphase => exact hphase

/-- Whoever begins a round and does not pause before it waits for its forks at once. -/
lemma settles_roundOf (hthink : p.pacing.think = 0) (hp : p.diner.phase.busy = false) :
    p.Settles none p.diner (p.work .empty (round p.pacing p.order)) := by
  cases hphase : p.diner.phase with
  | idle => exact settles_round hphase
  | waiting =>
    -- nobody hears that a diner waits who already does
    have hquiet : p.announcement .waiting = [] := by
      rw [announcement, hphase]
      rfl
    have hsame : p.withPhase .waiting = p := by
      rw [withPhase, ← hphase]
    have hwork : p.work .empty (round p.pacing p.order)
        = p.work .empty (reach p.pacing p.order) := by
      show p.work .empty (.pause p.pacing.think :: .enter .waiting :: reach p.pacing p.order) = _
      rw [hthink, work, work, hquiet, hsame]
      rfl
    rw [hwork]
    exact settles_reach hphase
  | eating | releasing =>
    rw [hphase] at hp
    cases hp

/-- A round ends when both forks have been handed back. -/
lemma workOn_enterIdle (p : Philosopher) (call : Call) (honce : call.repeats = false) :
    p.workOn call [.enter .idle]
      = ⟨p.withPhase .idle, call.lifted, p.announcement .idle, .ended⟩ := by
  simp [workOn, work, Work.after, honce]

end Philosopher

/-! ### Turns in a round -/

namespace Table

variable {r : Ring} {t u : Table} {i : ℕ} {p q : Philosopher} {call : Call} {side : Side}
  {rest agenda : List Instr} {turn : Turn} {s : RingState} {h : List Move}

/-- What a turn of seat `i` in a single round leads to: to a place of rest, or to the end of the
round, and then the turn has been passed on. -/
inductive Advances (r : Ring) (t : Table) (i : ℕ) (turn : Turn) (h : List Move) : Prop where
  | rests {p : Philosopher} {call : Call} (path : r.Path t.view h turn.table.view)
      (own : ∀ m ∈ h, m.seat = i) (passes : passes h = 0) (ending : turn.ending = none)
      (philosopher : turn.table.philosopher? i = some p) (swift : p.Swift r i)
      (called : p.call = some call) (rests : p.Rests call.lifted call.agenda)
  | ends {p : Philosopher} (path : r.Path t.view h turn.table.view) (own : ∀ m ∈ h, m.seat = i)
      (passes : passes h = 1) (ending : turn.ending = some (.ok ()))
      (philosopher : turn.table.philosopher? i = some p) (swift : p.Swift r i)
      (resting : p.call = none) (phase : p.diner.phase.busy = false)

/-- A philosopher who works until it has to wait, after moves that pass on no turn. -/
lemma advances_of_settles (hpath : r.Path t.view h s) (hown : ∀ m ∈ h, m.seat = i)
    (hpasses : passes h = 0) (hs : s.Fits r.seats) (hi : i < r.seats) (hq : q.Swift r i)
    (hseat : q.seat = i) (hplace : i < u.philosophers.size)
    (hview : ∀ d, u.view.setDiner i d = s.setDiner i d)
    (hsettles : q.Settles none (s.diner i) (q.workOn call agenda)) :
    ∃ k, Advances r t i (u.settle q call agenda) k := by
  obtain ⟨as, rest, -, hsettled⟩ := hsettles
  obtain ⟨p, call', hsettle, hcall, -, horder, hpacing, -, -, hrests, halone⟩ :=
    exists_settle (t := u) hsettled
  have hpath' : r.Path t.view (h ++ as.map (Move.mk i)) (u.put i (some p)).view := by
    rw [view_put, hview]
    exact hpath.append (Ring.path_of_alone hs hi halone rfl)
  rw [hsettle, hseat]
  refine ⟨_, .rests hpath' ?_ ?_ rfl (philosopher?_put_self hplace)
    ⟨horder.trans hq.order, hpacing.trans hq.pacing⟩ hcall hrests⟩
  · intro m hm
    rcases List.mem_append.mp hm with hm | hm
    · exact hown m hm
    · obtain ⟨a, -, rfl⟩ := List.mem_map.mp hm
      rfl
  · rw [passes_append, hpasses, Nat.zero_add]
    exact halone.passes_eq_zero i

section

variable (ht : t.Linked r.seats) (hall : ∀ j < r.seats, t.philosopher? j ≠ none)
  (hp : t.philosopher? i = some p) (hcall : p.call = some call)
include ht hp hcall

/-- A philosopher who works on from where it is. -/
lemma Linked.advances_on (hlifted : call.lifted = .empty)
    (hswift : p.Swift r i) (hsettles : p.Settles none p.diner (p.workOn call agenda)) :
    ∃ k, Advances r t i (t.settle p call agenda) k := by
  have hseen := diner_view_of_empty hp hcall hlifted
  exact advances_of_settles (.nil _) (by simp) rfl ht.fits (ht.lt hp) hswift (ht.seat_eq hp)
    (lt_size hp) (fun _ => rfl) (hseen ▸ hsettles)

include hall

/-- A fork that has arrived is taken, and the philosopher works on. -/
lemma Linked.advances_take (hlifted : call.lifted = .empty) (hswift : p.Swift r i)
    (hphase : p.diner.phase = .waiting) (hmissing : Ring.missing? p.order p.hands = some side)
    (hsettles : ∀ q, q = p.withHands (p.hands.set side true) →
      q.Settles none q.diner (q.workOn call rest))
    (hturn : t.takeTurn p call side rest = some turn) : ∃ k, Advances r t i turn k := by
  have hi := ht.lt hp
  have hseen := diner_view_of_empty hp hcall hlifted
  rw [Table.takeTurn, ht.wiring i p hp, ht.take_eq hi] at hturn
  split_ifs at hturn with harrived hgone
  · obtain rfl := Option.some.inj hturn
    have hready : r.Ready t.view i (.take side) := by
      refine .take side (by rw [hseen, hphase]) ?_ (by rw [slot_view, harrived])
      rw [hseen, ← hswift.order]
      exact hmissing
    have hafter : (r.perform t.view i (.take side)).diner i
        = (p.withHands (p.hands.set side true)).diner := by
      rw [Ring.diner_perform_self ht.fits hi, hseen]
      rfl
    have hq := hsettles _ rfl
    rw [← hafter] at hq
    have hseat : p.seat = i := ht.seat_eq hp
    refine advances_of_settles (.single hi hready) (by simp) rfl (Ring.fits_perform ht.fits) hi
      ⟨hswift.order, hswift.pacing⟩ hseat (lt_size hp) (fun d => ?_) hq
    rw [view_fill, Ring.perform, RingState.setDiner_setDiner]
  · exact absurd hgone (hall _ (Slot.neighbor_lt hi side))

/-- A lifted fork for which there is room is handed back. -/
lemma Linked.giveTurn_eq (hdiner : p.diner = ⟨.releasing, .empty⟩)
    (hreturning : Ring.returning? call.lifted = some side)
    (hturn : t.giveTurn p call side rest = some turn) :
    r.Ready t.view i (.give side) ∧
      (r.perform t.view i (.give side)).diner i
        = (⟨.releasing, call.lifted⟩ : Diner).after (.give side) ∧
      ∃ u : Table, turn = u.settle p { call with lifted := call.lifted.set side false } rest ∧
        (∀ j, u.philosopher? j = t.philosopher? j) ∧
        ∀ d, u.view.setDiner i d = (r.perform t.view i (.give side)).setDiner i d := by
  have hi := ht.lt hp
  have hseen : t.view.diner i = ⟨.releasing, call.lifted⟩ := by
    rw [diner_view_of_call hp hcall, Philosopher.seen, Philosopher.hands, hdiner, Hands.empty_join]
  rw [Table.giveTurn, ht.wiring i p hp, ht.give_eq hi] at hturn
  split_ifs at hturn with hgone hfull
  · exact absurd hgone (hall _ (Slot.neighbor_lt hi side))
  · obtain rfl := Option.some.inj hturn
    have hready : r.Ready t.view i (.give side) :=
      .give side (by rw [hseen]) (by rw [hseen]; exact hreturning)
        (by rw [slot_view]; simpa using hfull)
    refine ⟨hready, by rw [Ring.diner_perform_self ht.fits hi, hseen], _, rfl, fun _ => rfl,
      fun d => ?_⟩
    rw [view_fill, Ring.perform, RingState.setDiner_setDiner]

/-- When the second fork has been handed back, the round is over. -/
lemma Linked.advances_giveRight (hswift : p.Swift r i) (honce : call.repeats = false)
    (hleaves : call.leaves = false) (hdiner : p.diner = ⟨.releasing, .empty⟩)
    (hlifted : call.lifted = ⟨false, true⟩)
    (hturn : t.giveTurn p call .right [.enter .idle] = some turn) :
    ∃ k, Advances r t i turn k := by
  obtain ⟨hready, hafter, u, rfl, hsame, hview⟩ :=
    ht.giveTurn_eq hall hp hcall hdiner (by rw [hlifted]; rfl) hturn
  have hp' : u.philosopher? p.seat = some p := by rw [ht.seat_eq hp, hsame, hp]
  have hwork := p.workOn_enterIdle { call with lifted := call.lifted.set .right false } honce
  have hidle : (p.withPhase .idle).diner = ⟨.idle, .empty⟩ := by
    rw [Philosopher.withPhase, hdiner]
  -- the seat shows an idle diner with empty hands, as it does after the move
  have hshown : (u.put i (some { p.withPhase .idle with call := none })).view
      = r.perform t.view i (.give .right) := by
    have hfinal : (r.perform t.view i (.give .right)).diner i = ⟨.idle, .empty⟩ := by
      rw [hafter, hlifted]
      rfl
    have hrest : Philosopher.shownAt (some { p.withPhase .idle with call := none })
        = (r.perform t.view i (.give .right)).diner i := by
      rw [hfinal, ← hidle]
      exact Philosopher.seen_empty _
    rw [view_put, hview, hrest, RingState.setDiner_diner]
  rw [settle_of_result hp' (by rw [hwork]; rfl), hwork, hleaves, ht.seat_eq hp]
  refine ⟨[⟨i, .give .right⟩], .ends ?_ (by simp) rfl rfl
    (philosopher?_put_self (lt_size ((hsame i).trans hp))) ⟨hswift.order, hswift.pacing⟩ rfl rfl⟩
  show r.Path t.view _ (u.put i (some { p.withPhase .idle with call := none })).view
  rw [hshown]
  exact .single (ht.lt hp) hready

/-- **A turn in a single round** of a philosopher who never pauses. -/
theorem Linked.advances (hswift : p.Swift r i) (honce : call.repeats = false)
    (hleaves : call.leaves = false) (hround : p.InRound call)
    (hturn : t.turn p call = some turn) : ∃ k, Advances r t i turn k := by
  have hthink : p.pacing.think = 0 := by rw [hswift.pacing]
  obtain ⟨agenda, repeats, leaves, lifted, wake⟩ := call
  cases hround with
  | start hphase hlifted hawake hagenda =>
    obtain rfl : agenda = _ := hagenda
    obtain rfl : lifted = _ := hlifted
    obtain rfl : wake = _ := hawake
    obtain rfl := Option.some.inj hturn
    exact ht.advances_on hp hcall rfl hswift
      (Philosopher.settles_workOn (Philosopher.settles_roundOf hthink hphase))
  | rest hrests hstalled =>
    have hawake := hrests.pauses_eq_false hstalled.1 hswift
    cases hrests with
    | thinking | eating => cases hawake
    | reachingFirst hphase hlacks =>
      simp only [Table.turn, hlacks, Bool.false_eq_true, if_false] at hturn
      refine ht.advances_take hall hp hcall rfl hswift hphase (Ring.missing?_first hlacks) ?_ hturn
      rintro q rfl
      exact Philosopher.settles_workOn (Philosopher.settles_second hphase
        (by simp [Philosopher.withHands, Philosopher.hands]))
    | reachingSecond hphase hholds hlacks =>
      simp only [Table.turn, hlacks, Bool.false_eq_true, if_false] at hturn
      refine ht.advances_take hall hp hcall rfl hswift hphase (Ring.missing?_second hholds hlacks)
        ?_ hturn
      rintro q rfl
      exact Philosopher.settles_workOn (Philosopher.settles_dine hphase
        (Hands.both_set_opposite hholds))
    | givingLeft hdiner =>
      obtain ⟨hready, hafter, u, rfl, hsame, hview⟩ :=
        ht.giveTurn_eq hall hp hcall hdiner rfl hturn
      refine advances_of_settles (.single (ht.lt hp) hready) (by simp) rfl
        (Ring.fits_perform ht.fits) (ht.lt hp) hswift (ht.seat_eq hp)
        (lt_size ((hsame i).trans hp)) hview ?_
      rw [hafter]
      exact Philosopher.settles_workOn (Philosopher.settles_giveRight hdiner)
    | givingRight hdiner =>
      exact ht.advances_giveRight hall hp hcall hswift honce hleaves hdiner rfl hturn

end

end Table

end DiningRing
