/-
# Rounds that are given up

Without pauses a philosopher who is asked for a round gets it to its end if it can, in turns that
take no time; so a round is given up only where a fork is lacking, and then it leaves the
philosopher waiting, perhaps with one fork in hand.  However many rounds have been given up, on
whatever seats, what the table shows has come about by ready moves of the ring
(`Session.Trying`).  Hence the turns are where they would be without those attempts.

Under `reversedLast` the seat whose turn it is owns both its forks, so that its round is not given
up; and a round that comes to its end passes the turn on, which only that seat can do.  Under
`uniform` nobody ever gets a right fork.
-/
import DiningRing.Proofs.Live.Cancellation
import DiningRing.Proofs.Live.Rounds

namespace DiningRing

/-! ### Plans and turns -/

/-- What the plan has made of a table when `k` turns have been passed on: somebody has the turn, or
there are no right forks. -/
inductive RingState.Stage (n : ℕ) (s : RingState) : Plan → ℕ → Prop where
  | turn {k : ℕ} (turn : s.Turn n k) : Stage n s .reversedLast k
  | starved (starved : s.Starved n) : Stage n s .uniform 0

/-- Moves of one seat pass on a turn only if it is its own. -/
lemma Ring.Path.stage {r : Ring} {s t : RingState} {h : List Move} {i k : ℕ} (hp : r.Path s h t)
    (hs : s.Sound r.seats) (hk : s.Stage r.seats r.plan k) (hown : ∀ m ∈ h, m.seat = i) :
    t.Stage r.seats r.plan (k + passes h) ∧
      (passes h ≠ 0 → r.plan = .reversedLast ∧ i = k % r.seats) := by
  obtain ⟨n, plan⟩ := r
  cases hk with
  | turn hturn =>
    obtain ⟨hlater, hseat⟩ := hp.turn hs hturn hown
    exact ⟨.turn hlater, fun hne => ⟨rfl, hseat hne⟩⟩
  | starved hstarved =>
    obtain ⟨hlater, hpasses⟩ := hp.starved hstarved
    rw [hpasses]
    exact ⟨.starved hlater, fun hne => absurd rfl hne⟩

namespace Session

/-! ### Attempts -/

/-- A round that a seat is asked for, and the time limit under which it is. -/
structure Attempt where
  seat : ℕ
  limit : ℕ
deriving DecidableEq, Repr

/-- The session after an attempt. -/
def attempt (s : Session) (a : Attempt) : Session := s.perform a.seat (.cycles 1) a.limit

/-- The session after several attempts. -/
def attemptAll (s : Session) (attempts : List Attempt) : Session := attempts.foldl attempt s

/-- Whether the last attempt, which was that of a seat, has come to a good end. -/
def succeeded (s : Session) (seat : ℕ) : Bool :=
  match (s.endOf? seat).map Ended.ending with
  | some (.returned (.ok ())) => true
  | _ => false

/-- How many attempts among several have come to a good end. -/
def successes (s : Session) : List Attempt → ℕ
  | [] => 0
  | a :: attempts => ((s.attempt a).succeeded a.seat).toNat + (s.attempt a).successes attempts

/-! ### One attempt -/

variable {r : Ring} {s u : Session} {i j k : ℕ} {t : Turn} {h : List Move}

/-- A table that nobody has left, at which nobody is busy and nobody ever pauses: everybody is
idle or waits. -/
structure Swift (r : Ring) (s : Session) : Prop where
  intact : s.Intact r.seats
  philosophers : ∀ i p, s.table.philosopher? i = some p → p.Swift r i ∧ p.diner.phase.busy = false

/-- A table at which everybody is idle or waits is in a sound state. -/
lemma Swift.sound (hs : s.Swift r) : s.table.view.Sound r.seats := by
  refine hs.intact.sound fun i p hp => ?_
  have hbusy := (hs.philosophers i p hp).2
  refine ⟨fun hreleasing => ?_, fun heating => ?_⟩
  · rw [hreleasing] at hbusy
    cases hbusy
  · rw [heating] at hbusy
    cases hbusy

/-- An attempt of seat `i`, begun in `s`, has come to `u` by moves of that seat: as long as it is
not over they pass on no turn, and they have passed on one when it is. -/
structure Trying (r : Ring) (s : Session) (i : ℕ) (u : Session) (h : List Move) : Prop where
  underway : Underway r.seats s i (.cycles 1) u
  path : r.Path s.table.view h u.table.view
  own : ∀ m ∈ h, m.seat = i
  swift : ∀ p, u.table.philosopher? i = some p → p.Swift r i
  progress : Going r.seats s i (.cycles 1) u ∧ passes h = 0 ∧
      (∀ p call, u.table.philosopher? i = some p → p.call = some call → p.InRound call) ∨
    Over r.seats s i u (.ok ()) ∧ passes h = 1 ∧
      ∀ p, u.table.philosopher? i = some p → p.diner.phase.busy = false

/-- An attempt begins where the seat is. -/
lemma Swift.trying (hs : s.Swift r) (i : ℕ) : Trying r s i (s.asked i (.cycles 1)) [] := by
  have hunderway := hs.intact.atRest.underway (i := i) (q := .cycles 1) rfl
  have hview : (s.asked i (.cycles 1)).table.view = s.table.view :=
    Table.view_call (hs.intact.atRest.resting i) _
  refine ⟨hunderway, hview ▸ .nil _, by simp, fun p hp => ?_, .inl ⟨?_, rfl, fun p call hp hcall =>
    ?_⟩⟩
  · obtain ⟨p₀, hp₀, rfl⟩ := exists_of_asked hp
    obtain ⟨⟨horder, hpacing⟩, -⟩ := hs.philosophers i p₀ hp₀
    exact ⟨horder, hpacing⟩
  · rcases hunderway.progress with hgoing | ⟨result, hover⟩
    · exact hgoing
    · obtain ⟨clock, hended⟩ := hover.ended
      cases hended
  · obtain ⟨p₀, hp₀, rfl⟩ := exists_of_asked hp
    obtain rfl := Option.some.inj hcall
    refine .start (hs.philosophers i p₀ hp₀).2 rfl rfl ?_
    simp [Request.call, Request.agenda]

/-- A turn of an attempt is one of the seat in its round. -/
lemma Trying.exists_advances (hs : s.Swift r) (hu : Trying r s i u h)
    (hstep : u.table.step j = some t) : passes h = 0 ∧ ∃ k, Table.Advances r u.table i t k := by
  obtain ⟨rfl, hgoing, p, call, hp, hcall, honce, hleaves, -, -⟩ :=
    hu.underway.exists_turned hs.intact.atRest hstep
  obtain ⟨-, hpasses, hround⟩ := hu.progress.resolve_right fun h => h.1.not_going hgoing
  have hturn : u.table.turn p call = some t := by
    simpa only [Table.step, hp, hcall] using hstep
  exact ⟨hpasses, hu.underway.linked.advances (hs.intact.seated hu.underway) hp hcall
    (hu.swift p hp) honce hleaves (hround p call hp hcall) hturn⟩

/-- **Every turn of an attempt is one of the step model.** -/
lemma Trying.absorb (hs : s.Swift r) (hu : Trying r s i u h) (hstep : u.table.step j = some t) :
    ∃ k, Trying r s i (u.absorb j t) k := by
  obtain ⟨hpasses, k, hadvances⟩ := hu.exists_advances hs hstep
  have hrest := hs.intact.atRest
  obtain ⟨htable, -, -⟩ := absorb_spec hu.underway.silent j t
  have hown : (∀ m ∈ k, m.seat = i) → ∀ m ∈ h ++ k, m.seat = i := fun hk m hm =>
    (List.mem_append.mp hm).elim (hu.own m) (hk m)
  refine ⟨h ++ k, ?_⟩
  cases hadvances with
  | @rests p call hpath hkown hkpasses hending hp hswift hcall hplace =>
    have hstalled : p.Stalled call := by
      obtain ⟨rfl, -, _, _, -, -, -, -, -, hturned⟩ := hu.underway.exists_turned hrest hstep
      obtain ⟨p', call', hp', hcall', -, -, hstalled, -⟩ := hturned.going hending
      obtain rfl := Option.some.inj (hp.symm.trans hp')
      obtain rfl := Option.some.inj (hcall.symm.trans hcall')
      exact hstalled
    refine ⟨hu.underway.absorb hrest hstep, htable ▸ hu.path.append hpath, hown hkown,
      fun p' hp' => ?_, .inl ⟨hu.underway.going_absorb hrest hstep hending, ?_,
        fun p' call' hp' hcall' => ?_⟩⟩
    · rw [htable, hp] at hp'
      obtain rfl := Option.some.inj hp'
      exact hswift
    · rw [passes_append, hpasses, hkpasses]
    · rw [htable, hp] at hp'
      obtain rfl := Option.some.inj hp'
      obtain rfl := Option.some.inj (hcall.symm.trans hcall')
      exact .rest hplace hstalled
  | @ends p hpath hkown hkpasses hending hp hswift _ hphase =>
    refine ⟨hu.underway.absorb hrest hstep, htable ▸ hu.path.append hpath, hown hkown,
      fun p' hp' => ?_, .inr ⟨hu.underway.over_absorb hrest hstep hending, ?_, fun p' hp' => ?_⟩⟩
    · rw [htable, hp] at hp'
      obtain rfl := Option.some.inj hp'
      exact hswift
    · rw [passes_append, hpasses, hkpasses]
    · rw [htable, hp] at hp'
      obtain rfl := Option.some.inj hp'
      exact hphase

/-- **So is all that happens during an attempt.** -/
lemma Swift.exists_trying (hs : s.Swift r) (i : ℕ) (moments : List Moment) :
    ∃ h, Trying r s i ((s.asked i (.cycles 1)).follow moments) h := by
  refine follow_induction (P := fun u => ∃ h, Trying r s i u h) ⟨[], hs.trying i⟩
    (fun u j t hu hstep => ?_) (fun u clock hu => ?_) moments
  · obtain ⟨h, hu⟩ := hu
    exact hu.absorb hs hstep
  · obtain ⟨h, hu⟩ := hu
    refine ⟨h, hu.underway.withClock clock, hu.path, hu.own, hu.swift, ?_⟩
    rcases hu.progress with ⟨hgoing, hrest⟩ | ⟨hover, hrest⟩
    · exact .inl ⟨hgoing.withClock clock, hrest⟩
    · exact .inr ⟨hover.withClock clock, hrest⟩

/-- A round that is given up leaves its seat waiting for a fork that is neither in its hands nor on
its way to it. -/
lemma Trying.waits (hs : s.Swift r) (hi : i < r.seats) (hu : Trying r s i u h)
    (hgoing : Going r.seats s i (.cycles 1) u) (hstep : u.table.step i = none) :
    ∃ p call, u.table.philosopher? i = some p ∧ p.call = some call ∧ call.lifted = .empty ∧
      p.diner.phase = .waiting ∧ ∃ side, u.table.view.owns r.seats i side = false := by
  obtain ⟨p, hp⟩ := Option.ne_none_iff_exists'.mp (hs.intact.seated hu.underway i hi)
  obtain ⟨call, hcall, -⟩ := hgoing.call p hp
  obtain ⟨hlifted, -⟩ := hs.intact.of_step_eq_none hu.underway hgoing hstep hp hcall
  have hround : p.InRound call := by
    rcases hu.progress with ⟨-, -, hround⟩ | ⟨hover, -⟩
    · exact hround p call hp hcall
    · rw [hover.resting p hp] at hcall
      cases hcall
  refine ⟨p, call, hp, hcall, hlifted, ?_⟩
  cases hu.underway.linked.waits hp hcall hstep with
  | sleep _ hasleep =>
    rw [hround.wake_eq_none (hu.swift p hp)] at hasleep
    cases hasleep
  | @fork side rest hagenda hlacks hmissing =>
    refine ⟨hround.phase_of_acquire hagenda, side, ?_⟩
    rw [RingState.owns, Table.hand_view hp hcall, hlacks, hlifted, Table.slot_view, hmissing]
    cases side <;> rfl
  | room hagenda =>
    have hsome := hs.intact.step_isSome_of_give hu.underway hgoing hp hcall hagenda
    rw [hstep] at hsome
    cases hsome

/-! ### What an attempt comes to -/

/-- Nobody else is touched by an attempt. -/
lemma Trying.swift_of_ne (hs : s.Swift r) (hu : Trying r s i u h) {p : Philosopher} (hji : j ≠ i)
    (hp : u.table.philosopher? j = some p) : p.Swift r j ∧ p.diner.phase.busy = false :=
  hs.philosophers j p (hu.underway.others j hji ▸ hp)

/-- A round that is given up leaves no other trace than that its seat waits. -/
lemma Trying.cut (hs : s.Swift r) (hi : i < r.seats) (hu : Trying r s i u h)
    (hgoing : Going r.seats s i (.cycles 1) u) (hstep : u.table.step i = none) :
    (u.cut i).Swift r ∧ (u.cut i).table.view = u.table.view := by
  obtain ⟨p, call, hp, hcall, hlifted, hphase, -⟩ := hu.waits hs hi hgoing hstep
  have htable : (u.cut i).table = u.table.retire i p false := by
    rcases hgoing.table_cut with ⟨hnone, -⟩ | ⟨p', call', hp', -, htable⟩
    · rw [hp] at hnone
      cases hnone
    · obtain rfl := Option.some.inj (hp.symm.trans hp')
      exact htable
  refine ⟨⟨hs.intact.cut hu.underway hgoing hstep, fun j p' hp' => ?_⟩, ?_⟩
  · rw [htable] at hp'
    by_cases hji : j = i
    · subst hji
      rw [Table.philosopher?_retire_self hp] at hp'
      obtain rfl := Option.some.inj hp'
      obtain ⟨horder, hpacing⟩ := hu.swift p hp
      exact ⟨⟨horder, hpacing⟩, congrArg Phase.busy hphase⟩
    · rw [Table.philosopher?_retire_ne hji] at hp'
      exact hu.swift_of_ne hs hji hp'
  · rw [htable, Table.view_retire hp hcall hlifted]

/-- No round is given up in the turn of its seat, which owns both its forks then. -/
lemma Trying.out_of_turn (hs : s.Swift r) (hn : 2 ≤ r.seats) (hi : i < r.seats)
    (hu : Trying r s i u h) (hgoing : Going r.seats s i (.cycles 1) u)
    (hstep : u.table.step i = none) (hk : u.table.view.Stage r.seats r.plan k) :
    ¬ (r.plan = .reversedLast ∧ i = k % r.seats) := by
  rintro ⟨hplan, hin⟩
  obtain ⟨p, call, hp, -, -, hphase, side, howns⟩ := hu.waits hs hi hgoing hstep
  rw [hplan] at hk
  cases hk with
  | turn hturn =>
    have hwaiting : (u.table.view.diner (k % r.seats)).phase = .waiting := by
      rw [← hin, Table.diner_view hp]
      exact hphase
    have howned := Ring.owns_of_turn hn hturn (hu.path.course.sound hs.sound) hwaiting side
    rw [← hin, howns] at howned
    cases howned

/-- **An attempt succeeds in the turn of its seat and is given up otherwise**, and only success
passes the turn on. -/
theorem Swift.attempt (hs : s.Swift r) (hn : 2 ≤ r.seats) {a : Attempt} (ha : a.seat < r.seats)
    (hk : s.table.view.Stage r.seats r.plan k) :
    let inTurn := r.plan = .reversedLast ∧ a.seat = k % r.seats
    (∃ clock, (s.attempt a).endOf? a.seat
      = some ⟨a.seat, clock, if inTurn then .returned (.ok ()) else .cut⟩) ∧
    (s.attempt a).Swift r ∧
    (s.attempt a).table.view.Stage r.seats r.plan (k + (decide inTurn).toNat) := by
  intro inTurn
  obtain ⟨moments, -, hend⟩ := hs.intact.atRest.exists_perform (q := .cycles 1) rfl a.seat a.limit
  obtain ⟨h, hu⟩ := hs.exists_trying a.seat moments
  obtain ⟨hstage, hseat⟩ := hu.path.stage hs.sound hk hu.own
  rcases hend with ⟨result, hover, hattempt⟩ | ⟨hgoing, hstep, hattempt⟩
  · obtain ⟨hover, hpasses, hphase⟩ := hu.progress.resolve_left fun h => hover.not_going h.1
    have hin : inTurn := hseat (by omega)
    have hintact := (hs.intact.perform ha (q := .cycles 1) rfl a.limit).1
    rw [hattempt] at hintact
    rw [Session.attempt, hattempt, if_pos hin, decide_eq_true hin]
    rw [hpasses] at hstage
    refine ⟨hover.endOf?, ⟨hintact, fun j p hp => ?_⟩, hstage⟩
    by_cases hj : j = a.seat
    · subst hj
      exact ⟨hu.swift p hp, hphase p hp⟩
    · exact hu.swift_of_ne hs hj hp
  · obtain ⟨-, hpasses, -⟩ := hu.progress.resolve_right fun h => h.1.not_going hgoing
    obtain ⟨hswift, hview⟩ := hu.cut hs ha hgoing hstep
    rw [hpasses, Nat.add_zero] at hstage
    have hout : ¬ inTurn := hu.out_of_turn hs hn ha hgoing hstep hstage
    rw [Session.attempt, hattempt, if_neg hout, decide_eq_false hout, hview]
    exact ⟨⟨_, hgoing.endOf?_cut⟩, hswift, hstage⟩

lemma succeeded_eq {seat clock : ℕ} {inTurn : Prop} [Decidable inTurn] (hend : s.endOf? seat
    = some ⟨seat, clock, if inTurn then .returned (.ok ()) else .cut⟩) :
    s.succeeded seat = decide inTurn := by
  rw [succeeded, hend]
  by_cases h : inTurn
  · simp [h]
  · simp [h]

/-- **Attempts one after another pass on as many turns as have succeeded.** -/
theorem Swift.attemptAll (hs : s.Swift r) (hn : 2 ≤ r.seats) {attempts : List Attempt}
    (hseats : ∀ a ∈ attempts, a.seat < r.seats) (hk : s.table.view.Stage r.seats r.plan k) :
    (s.attemptAll attempts).Swift r ∧
      (s.attemptAll attempts).table.view.Stage r.seats r.plan (k + s.successes attempts) := by
  induction attempts generalizing s k with
  | nil => exact ⟨hs, hk⟩
  | cons a attempts ih =>
    obtain ⟨ha, hrest⟩ := List.forall_mem_cons.mp hseats
    obtain ⟨⟨clock, hend⟩, hswift, hstage⟩ := hs.attempt hn ha hk
    rw [successes, succeeded_eq hend, ← Nat.add_assoc]
    exact ih hswift hrest hstage

end Session

end DiningRing
