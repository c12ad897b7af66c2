/-
# Scripted runs and steps by hand

A scripted run makes the steps that its script names for as long as they are accepted, and a script
may name seats that are blocked, seats that are not there, and more seats than the budget allows.
`Simulation.Follows` says that the steps of a list are accepted one after another, each at a time
when some seat can move.  The latter is implied (`Simulation.follows_iff_accepts`), but a run looks
for it first.

A run follows the longest beginning of its script that the budget allows (`Simulation.Reach`).  Then
there are four ways to stop, in the order in which a run looks for them: the budget is used up, the
ring is at rest, the script is at its end, or the next entry is refused
(`Simulation.scripted_run`).  The first two leave the rest of the script as it is; the last one
takes the refused entry off the script and takes no step.
-/
import DiningRing.Proofs.Budgets
import DiningRing.Proofs.Safety
import Mathlib.Data.Set.Finite.Lemmas

namespace DiningRing

namespace Simulation

variable {n budget seat : ℕ} {sim t : Simulation} {p q rest others script : List ℕ}
  {last : Scheduler} {r : Except SimulationError Outcome}

/-! ### Steps by hand -/

/-- The steps of a list are accepted one after another, and before each of them some seat can
move. -/
inductive Follows : Simulation → List ℕ → Prop where
  | nil (sim : Simulation) : Follows sim []
  | cons {sim : Simulation} {seat : ℕ} {a : Action} {p : List ℕ} (moving : sim.enabled ≠ [])
      (accepted : (sim.step seat).result = .ok a) (rest : Follows (sim.step seat).simulation p) :
      Follows sim (seat :: p)

lemma follows_cons : sim.Follows (seat :: p) ↔ sim.enabled ≠ [] ∧
    (sim.step seat).result.isOk = true ∧ (sim.step seat).simulation.Follows p := by
  constructor
  · intro h
    cases h with
    | cons hmoving haccepted hrest => exact ⟨hmoving, by rw [haccepted]; rfl, hrest⟩
  · rintro ⟨hmoving, hok, hrest⟩
    cases haccepted : (sim.step seat).result with
    | ok a => exact .cons hmoving haccepted hrest
    | error e => simp [haccepted, Except.isOk, Except.toBool] at hok

/-- Where the state is sound, a step that is accepted shows that a seat could move. -/
theorem follows_iff_accepts (hs : sim.state.Sound sim.ring.seats) :
    sim.Follows p ↔ sim.accepts p = true := by
  induction p generalizing sim with
  | nil => exact ⟨fun _ => rfl, fun _ => .nil sim⟩
  | cons seat p ih =>
    rw [follows_cons, accepts, Bool.and_eq_true, ih (sound_step hs seat)]
    refine and_iff_right_of_imp fun hok hstill => ?_
    have hnot : seat ∉ sim.enabled := by simp [hstill]
    simp [step_of_not_enabled hs hnot, Except.isOk, Except.toBool] at hok

instance decidableFollows : (sim : Simulation) → (p : List ℕ) → Decidable (sim.Follows p)
  | sim, [] => .isTrue (.nil sim)
  | sim, seat :: p =>
    have := decidableFollows (sim.step seat).simulation p
    decidable_of_iff _ follows_cons.symm

namespace Follows

lemma snoc (h : sim.Follows p) {a : Action} (hmoving : (sim.play p).enabled ≠ [])
    (haccepted : ((sim.play p).step seat).result = .ok a) : sim.Follows (p ++ [seat]) := by
  induction h with
  | nil sim => exact .cons hmoving haccepted (.nil _)
  | cons hfirst hok _ ih => exact .cons hfirst hok (ih hmoving haccepted)

/-- One step for each entry. -/
lemma steps_play (h : sim.Follows p) (hs : sim.state.Sound sim.ring.seats) :
    (sim.play p).steps = sim.steps + p.length := by
  induction h with
  | nil => rfl
  | cons _ haccepted _ ih =>
    rw [play, ih (sound_step hs _), steps_of_step hs haccepted, List.length_cons]
    omega

/-- **A run makes the steps of a list that is followed**, and goes on with the rest of its
script. -/
theorem drives (h : sim.Follows p)
    (hrest : Drives budget (sim.play p) (.scripted rest) r t last) :
    Drives (p.length + budget) sim (.scripted (p ++ rest)) r t last := by
  induction h with
  | nil =>
    rw [List.length_nil, Nat.zero_add]
    exact hrest
  | cons hmoving haccepted _ ih =>
    rw [List.length_cons, Nat.add_right_comm]
    exact .goes hmoving rfl haccepted (ih hrest)

end Follows

/-! ### The longest beginning -/

/-- The longest beginning of a script that is followed within a budget. -/
structure Reach (sim : Simulation) (script : List ℕ) (budget : ℕ) (p : List ℕ) : Prop where
  beginning : p <+: script
  within : p.length ≤ budget
  follows : sim.Follows p
  longest : ∀ q, q <+: script → q.length ≤ budget → sim.Follows q → q.length ≤ p.length

lemma Reach.unique (hp : sim.Reach script budget p) (hq : sim.Reach script budget q) : p = q := by
  have hle := hq.longest p hp.beginning hp.within hp.follows
  have hge := hp.longest q hq.beginning hq.within hq.follows
  exact (List.prefix_of_prefix_length_le hp.beginning hq.beginning hle).eq_of_length
    (Nat.le_antisymm hle hge)

/-- Some beginning is followed, the empty one, and there are not many of them. -/
theorem exists_reach (sim : Simulation) (script : List ℕ) (budget : ℕ) :
    ∃ p, sim.Reach script budget p := by
  let followed : Set (List ℕ) := {p | p <+: script ∧ p.length ≤ budget ∧ sim.Follows p}
  have hfinite : followed.Finite :=
    script.inits.finite_toSet.subset fun p hp => (List.mem_inits p script).mpr hp.1
  obtain ⟨p, ⟨hbeginning, hwithin, hfollows⟩, hlongest⟩ :=
    Set.exists_max_image followed List.length hfinite
      ⟨[], List.nil_prefix, Nat.zero_le budget, .nil sim⟩
  exact ⟨p, hbeginning, hwithin, hfollows, fun q hq hle hfollows => hlongest q ⟨hq, hle, hfollows⟩⟩

instance (sim : Simulation) (script : List ℕ) (budget : ℕ) (p : List ℕ) :
    Decidable (sim.Reach script budget p) :=
  decidable_of_iff (p <+: script ∧ p.length ≤ budget ∧ sim.Follows p ∧
      ∀ q ∈ script.inits, q.length ≤ budget → sim.Follows q → q.length ≤ p.length)
    ⟨fun ⟨hbeginning, hwithin, hfollows, hlongest⟩ =>
      ⟨hbeginning, hwithin, hfollows, fun q hq => hlongest q ((List.mem_inits q script).mpr hq)⟩,
    fun h => ⟨h.beginning, h.within, h.follows,
      fun q hq => h.longest q ((List.mem_inits q script).mp hq)⟩⟩

/-- The entry after the longest beginning is refused, if the budget and the ring would let it be
made. -/
lemma Reach.refused (h : sim.Reach (p ++ seat :: others) budget p) (hleft : p.length < budget)
    (hmoving : (sim.play p).enabled ≠ []) (hs : sim.state.Sound sim.ring.seats) :
    seat ∉ (sim.play p).enabled := by
  intro hmem
  obtain ⟨a, -, haccepted, -⟩ := step_of_enabled ((course_play hs p).sound hs) hmem
  have hfollows := h.follows.snoc hmoving haccepted
  have hbeginning : p ++ [seat] <+: p ++ seat :: others := ⟨others, by simp⟩
  have hlonger := h.longest _ hbeginning (by simpa using hleft) hfollows
  simp at hlonger

/-! ### Four ways to stop -/

lemma Reach.drives_spent (h : sim.Reach (p ++ rest) budget p) (hfull : p.length = budget) :
    Drives budget sim (.scripted (p ++ rest)) (.ok .completed) (sim.play p) (.scripted rest) := by
  have hdrives := h.follows.drives (.spent (sim.play p) (.scripted rest))
  rwa [Nat.add_zero, hfull] at hdrives

lemma Reach.drives_rests (h : sim.Reach (p ++ rest) budget p) (hleft : p.length < budget)
    (hstill : (sim.play p).enabled = []) :
    Drives budget sim (.scripted (p ++ rest)) (.ok (.deadlocked (sim.play p).steps)) (sim.play p)
      (.scripted rest) := by
  obtain ⟨left, rfl⟩ := Nat.exists_eq_add_of_lt hleft
  exact h.follows.drives (.rests left (.scripted rest) hstill)

lemma Reach.drives_stops (h : sim.Reach (p ++ rest) budget p) (hleft : p.length < budget)
    (hmoving : (sim.play p).enabled ≠ []) (hend : rest = []) :
    Drives budget sim (.scripted (p ++ rest)) (.ok (.scheduleExhausted (sim.play p).steps))
      (sim.play p) (.scripted []) := by
  subst hend
  obtain ⟨left, rfl⟩ := Nat.exists_eq_add_of_lt hleft
  exact h.follows.drives (.stops left hmoving rfl)

/-- A refused entry is off the script, and the simulation is as it was. -/
lemma Reach.drives_fails (h : sim.Reach (p ++ seat :: others) budget p)
    (hleft : p.length < budget) (hmoving : (sim.play p).enabled ≠ [])
    (hs : sim.state.Sound sim.ring.seats) :
    ((sim.play p).step seat).result = .error (.invalidSchedule ((sim.play p).steps + 1) seat) ∧
      Drives budget sim (.scripted (p ++ seat :: others))
        (.error (.invalidSchedule ((sim.play p).steps + 1) seat)) (sim.play p)
        (.scripted others) := by
  obtain ⟨hresult, hsame⟩ :=
    step_of_not_enabled ((course_play hs p).sound hs) (h.refused hleft hmoving hs)
  obtain ⟨left, rfl⟩ := Nat.exists_eq_add_of_lt hleft
  have hfails : Drives (left + 1) (sim.play p) (.scripted (seat :: others)) _ _ _ :=
    .fails left hmoving rfl hresult
  rw [hsame] at hfails
  exact ⟨hresult, h.follows.drives hfails⟩

/-- **A run leaves the simulation as the steps by hand leave it**, in whichever way it stops. -/
theorem Reach.exists_drives (h : sim.Reach (p ++ rest) budget p)
    (hs : sim.state.Sound sim.ring.seats) :
    ∃ r last, Drives budget sim (.scripted (p ++ rest)) r (sim.play p) last := by
  rcases h.within.eq_or_lt with hfull | hleft
  · exact ⟨_, _, h.drives_spent hfull⟩
  by_cases hstill : (sim.play p).enabled = []
  · exact ⟨_, _, h.drives_rests hleft hstill⟩
  cases rest with
  | nil => exact ⟨_, _, h.drives_stops hleft hstill rfl⟩
  | cons seat others => exact ⟨_, _, (h.drives_fails hleft hstill hs).2⟩

/-- **A scripted run is the same as stepping by hand.**  From every simulation that a schedule leads
to, for every script and every budget, a run follows the longest beginning of the script that the
budget allows and leaves the simulation as the steps by hand leave it.  If that uses up the budget,
it says so; otherwise, if then no seat can move, it reports the ring at rest; otherwise, if the
script is at its end, it reports that; otherwise it gives the error that the next entry gives by
hand.  What is left of the script is what comes after that beginning, without the entry that was
refused. -/
theorem scripted_run (hn : 2 ≤ n) (plan : Plan) (sink : Sink) :
    Simulation.create n plan sink = .ok (Simulation.begin ⟨n, plan⟩ sink) ∧
    ∀ (schedule script : List ℕ) (budget : ℕ),
      let sim := (Simulation.begin ⟨n, plan⟩ sink).play schedule
      let run := sim.run (.scripted script) budget
      ∃ p rest, script = p ++ rest ∧ sim.Reach script budget p ∧
        let final := sim.play p
        run.simulation = final ∧ final.steps = sim.steps + p.length ∧
        (p.length = budget →
          run.report = .ok (final.report "scripted" .completed) ∧
            run.scheduler = .scripted rest) ∧
        (p.length < budget → final.enabled = [] →
          run.report = .ok (final.report "scripted" (.deadlocked final.steps)) ∧
            run.scheduler = .scripted rest) ∧
        (p.length < budget → final.enabled ≠ [] → rest = [] →
          run.report = .ok (final.report "scripted" (.scheduleExhausted final.steps)) ∧
            run.scheduler = .scripted []) ∧
        ∀ seat others, p.length < budget → final.enabled ≠ [] → rest = seat :: others →
          (final.step seat).result = .error (.invalidSchedule (final.steps + 1) seat) ∧
            run.report = .error (.invalidSchedule (final.steps + 1) seat) ∧
            run.scheduler = .scripted others := by
  refine ⟨create_eq_ok hn plan sink, fun schedule script budget => ?_⟩
  intro sim run
  have hs : sim.state.Sound sim.ring.seats := sound_play_ring hn plan sink schedule
  obtain ⟨p, hreach⟩ := sim.exists_reach script budget
  obtain ⟨rest, rfl⟩ := hreach.beginning
  obtain ⟨r, last, hdrives⟩ := hreach.exists_drives hs
  refine ⟨p, rest, rfl, hreach, ?_⟩
  intro final
  refine ⟨(run_of_drives hdrives).2.1, hreach.follows.steps_play hs, fun hfull => ?spent,
    fun hleft hstill => ?rests, fun hleft hmoving hend => ?stops,
    fun seat others hleft hmoving hnext => ?fails⟩
  case spent =>
    have hspent := hreach.drives_spent hfull
    exact ⟨report_of_drives hspent, (run_of_drives hspent).2.2⟩
  case rests =>
    have hrests := hreach.drives_rests hleft hstill
    exact ⟨report_of_drives hrests, (run_of_drives hrests).2.2⟩
  case stops =>
    have hstops := hreach.drives_stops hleft hmoving hend
    exact ⟨report_of_drives hstops, (run_of_drives hstops).2.2⟩
  case fails =>
    subst hnext
    obtain ⟨hresult, hfails⟩ := hreach.drives_fails hleft hmoving hs
    exact ⟨hresult, report_of_drives_error hfails, (run_of_drives hfails).2.2⟩

/-- At a table of two under `uniform`, on which one seat waits already: a script is cut short by the
ring that comes to rest, before an entry that would be refused, and another one stops at a seat that
is not there. -/
theorem scripted_run_at_two :
    let sim := (Simulation.begin ⟨2, .uniform⟩ .null).play [1]
    let resting := sim.run (.scripted [0, 1, 0, 9, 0]) 4
    let refused := sim.run (.scripted [0, 7, 1]) 3
    2 ≤ 2 ∧ sim.Reach [0, 1, 0, 9, 0] 4 [0, 1, 0] ∧ sim.Reach [0, 7, 1] 3 [0] ∧
      resting.simulation = sim.play [0, 1, 0] ∧ resting.scheduler = .scripted [9, 0] ∧
      resting.report = .ok ((sim.play [0, 1, 0]).report "scripted" (.deadlocked 4)) ∧
      refused.simulation = sim.play [0] ∧ refused.scheduler = .scripted [1] ∧
      refused.report = .error (.invalidSchedule 3 7) := by
  intro sim resting refused
  have hscripted := (scripted_run (n := 2) (by decide) .uniform .null).2 [1]
  have hresting : sim.Reach [0, 1, 0, 9, 0] 4 [0, 1, 0] := by decide +kernel
  have hrefused : sim.Reach [0, 7, 1] 3 [0] := by decide +kernel
  refine ⟨by decide, hresting, hrefused, ?_⟩
  obtain ⟨p, rest, hscript, hreach, hsim, -, -, hrests, -⟩ := hscripted [0, 1, 0, 9, 0] 4
  obtain rfl := hreach.unique hresting
  obtain rfl : rest = [9, 0] := by simpa using hscript.symm
  obtain ⟨hreport, hscheduler⟩ := hrests (by decide) (by decide +kernel)
  refine ⟨hsim, hscheduler, hreport, ?_⟩
  obtain ⟨p, rest, hscript, hreach, hsim, -, -, -, -, hfails⟩ := hscripted [0, 7, 1] 3
  obtain rfl := hreach.unique hrefused
  obtain rfl : rest = [7, 1] := by simpa using hscript.symm
  obtain ⟨-, herror, hscheduler⟩ := hfails 7 [1] (by decide) (by decide +kernel) rfl
  exact ⟨hsim, hscheduler, herror⟩

end Simulation

end DiningRing
