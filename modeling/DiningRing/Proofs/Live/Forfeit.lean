/-
# Calls that fail

A call fails because a fork is lacking that has to be in hand, or because a neighbour is gone.
Forks on their way to a philosopher who is gone are lost with that philosopher, and nobody misses
them.  A fork between two philosophers who are both still there is lost by a call that fails in one
case only (`Session.AtRest.forksOn_of_failed`): a philosopher hands back both forks while the
neighbour on the left is gone.  Both forks have been lifted by then, the left one is refused, and
the right one is dropped with it instead of going to the neighbour on the right
(`release_beside_gone_neighbor_loses_fork`).
-/
import DiningRing.Proofs.Live.Errands

namespace DiningRing

namespace Session

variable {n i : ℕ} {s : Session} {q : Request}

/-- **What a call that fails does to the forks.** -/
theorem AtRest.forksOn_of_failed (hs : s.AtRest n) (hq : q.isSingle = true) {limit : ℕ}
    {ended : Ended} (hended : (s.perform i q limit).endOf? i = some ended) {error : RingError}
    (hfailed : ended.ending = .returned (.error error)) {e : ℕ} (he : e < n)
    (hjoined : s.table.Joined n e) : (s.perform i q limit).table.view.forksOn n e
      + (if error = .channelClosed i .left ∧ e = i then 1 else 0)
      = s.table.view.forksOn n e := by
  obtain ⟨moments, hu, ⟨result, hover, hperform⟩ | ⟨hgoing, -, hperform⟩⟩ :=
    hs.exists_perform hq i limit
  · obtain ⟨clock, hend⟩ := hover.endOf?
    rw [hperform] at hended ⊢
    obtain rfl := Option.some.inj (hend.symm.trans hended)
    obtain rfl : result = .error error := by
      injection hfailed
    have hstill := (hu.joined e).mpr hjoined
    split_ifs with hforfeit
    · obtain ⟨rfl, rfl⟩ := hforfeit
      exact hover.forfeit rfl hstill
    · rw [Nat.add_zero]
      refine hover.forks e he hstill ?_
      rintro ⟨hclosed, hei⟩
      exact hforfeit ⟨Except.error.inj hclosed, hei⟩
  · rw [hperform, hgoing.endOf?_cut] at hended
    obtain rfl := Option.some.inj hended
    cases hfailed

end Session

/-- **A call that fails loses one fork at most between two who are there.**  The philosophers of a
ring of at least two seats are asked for single things and dropped, in any order, and then a call
returns an error.  Nobody has come or gone with it, and every edge whose two philosophers are at
the table has as many forks as before, except that the right fork of the philosopher who has been
asked is lost if the left one could not be handed back. -/
theorem failed_calls_lose_one_fork_at_most {n : ℕ} (hn : 2 ≤ n) (plan : Plan) (pacing : Pacing)
    (sink : Sink) :
    let r : Ring := ⟨n, plan⟩
    Ring.lay n plan = .ok r ∧ ∃ table, r.seat pacing = .ok table ∧
      ∀ errands : List Session.Errand, (∀ e ∈ errands, e.isSingle = true) →
        let s := (Session.begin table ⟨sink, none⟩).carryOutAll errands
        ∀ seat (request : Request) limit ended error, request.isSingle = true →
          (s.perform seat request limit).endOf? seat = some ended →
          ended.ending = .returned (.error error) →
          let after := s.perform seat request limit
          (∀ j, after.table.philosopher? j = none ↔ s.table.philosopher? j = none) ∧
          ∀ e < n, s.table.philosopher? e ≠ none → s.table.philosopher? (Seat.next n e) ≠ none →
            after.table.view.forksOn n e
                + (if error = .channelClosed seat .left ∧ e = seat then 1 else 0)
              = s.table.view.forksOn n e := by
  intro r
  obtain ⟨l, hseat, hl⟩ := r.exists_laid pacing
  refine ⟨Ring.lay_eq_ok hn plan, _, hseat, fun errands hsingle => ?_⟩
  have hs : ((Session.begin (r.laid pacing l) ⟨sink, none⟩).carryOutAll errands).AtRest n :=
    (Ring.atRest_laid hl sink).carryOutAll hsingle
  intro s seat request limit ended error hrequest hended hfailed after
  refine ⟨(hs.perform hrequest seat limit).2, fun e he hleft hright => ?_⟩
  exact hs.forksOn_of_failed hrequest hended hfailed he ⟨hleft, hright⟩

/-- At a table of three the last diner has left, and the second one is asked to hand back forks of
which it has only one.  It is told so, and the fork between it and the first diner stays. -/
theorem failed_calls_lose_one_fork_at_most_at_three : 2 ≤ 3 ∧
    (∀ e ∈ [Session.Errand.drop 2], e.isSingle = true) ∧
    ∃ table, Ring.seat ⟨3, .reversedLast⟩ ⟨0, 0⟩ = .ok table ∧
      let s := (Session.begin table ⟨.null, none⟩).carryOutAll [.drop 2]
      let after := s.perform 1 .release 0
      ∃ ended, after.endOf? 1 = some ended ∧
        ended.ending = .returned (.error (.releaseWithoutForks 1 ⟨false, true⟩)) ∧
        s.table.philosopher? 0 ≠ none ∧ s.table.philosopher? 1 ≠ none ∧
        after.table.view.forksOn 3 0 = s.table.view.forksOn 3 0 := by
  obtain ⟨-, table, hseat, h⟩ :=
    failed_calls_lose_one_fork_at_most (n := 3) (by decide) .reversedLast ⟨0, 0⟩ .null
  obtain rfl : Ring.laid ⟨3, .reversedLast⟩ ⟨0, 0⟩ (.ofEdges 3) = table := by
    injection hseat
  have hrun : (fun s : Session => s.table.philosopher? 0 ≠ none ∧ s.table.philosopher? 1 ≠ none ∧
      ((s.perform 1 .release 0).endOf? 1).bind (fun ended => ended.ending.result?)
        = some (.error (.releaseWithoutForks 1 ⟨false, true⟩)))
      ((Session.begin (Ring.laid ⟨3, .reversedLast⟩ ⟨0, 0⟩ (.ofEdges 3)) ⟨.null, none⟩).carryOutAll
        [.drop 2]) := by
    decide +kernel
  obtain ⟨hzero, hone, hfails⟩ := hrun
  obtain ⟨ended, hended, hresult⟩ := Option.bind_eq_some_iff.mp hfails
  have hfailed := Ending.result?_eq_some_iff.mp hresult
  obtain ⟨-, hforks⟩ := h [.drop 2] (by decide) 1 .release 0 ended _ rfl hended hfailed
  exact ⟨by decide, by decide, _, hseat, ended, hended, hfailed, hzero, hone,
    hforks 0 (by decide) hzero hone⟩

/-- **Handing back both forks beside an empty seat loses one.**  At a table of three the last diner
has left, and the first one, who has both forks, is asked to hand them back.  The call fails, and
the fork between the first diner and the second one, who are both there, is gone. -/
theorem release_beside_gone_neighbor_loses_fork :
    ∃ table, Ring.seat ⟨3, .reversedLast⟩ ⟨0, 0⟩ = .ok table ∧
      let s := (Session.begin table ⟨.null, none⟩).carryOutAll [.drop 2]
      let after := s.perform 0 .release 0
      ∃ ended, after.endOf? 0 = some ended ∧
        ended.ending = .returned (.error (.channelClosed 0 .left)) ∧
        after.table.philosopher? 0 ≠ none ∧ after.table.philosopher? 1 ≠ none ∧
        s.table.view.forksOn 3 0 = 1 ∧ after.table.view.forksOn 3 0 = 0 := by
  have hseat : Ring.seat ⟨3, .reversedLast⟩ ⟨0, 0⟩
      = .ok (Ring.laid ⟨3, .reversedLast⟩ ⟨0, 0⟩ (.ofEdges 3)) := rfl
  have hrun : (fun s : Session => ((s.perform 0 .release 0).endOf? 0).bind
        (fun ended => ended.ending.result?) = some (.error (.channelClosed 0 .left)) ∧
      (s.perform 0 .release 0).table.philosopher? 0 ≠ none ∧
      (s.perform 0 .release 0).table.philosopher? 1 ≠ none ∧
      s.table.view.forksOn 3 0 = 1 ∧ (s.perform 0 .release 0).table.view.forksOn 3 0 = 0)
      ((Session.begin (Ring.laid ⟨3, .reversedLast⟩ ⟨0, 0⟩ (.ofEdges 3)) ⟨.null, none⟩).carryOutAll
        [.drop 2]) := by
    decide +kernel
  obtain ⟨hfails, hzero, hone, hbefore, hafter⟩ := hrun
  obtain ⟨ended, hended, hresult⟩ := Option.bind_eq_some_iff.mp hfails
  exact ⟨_, hseat, ended, hended, Ending.result?_eq_some_iff.mp hresult, hzero, hone, hbefore,
    hafter⟩

end DiningRing
