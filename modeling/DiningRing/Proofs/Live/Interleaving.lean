/-
# Interleavings of a live table

Between two points of waiting nobody can disturb a diner, so an interleaving of the diners'
work is told by the order in which they get their turns and by the times in between
(`Session.Moment`).  Nothing is assumed about that order: a seat may be given a turn when it
can only wait, and it then does nothing, and the clock may be set to any time.

A session that runs by itself, sweep after sweep, follows some interleaving
(`Session.exists_follow_of_runUntil`).
-/
import DiningRing.Live.Session
import DiningRing.Proofs.Announcements
import DiningRing.Proofs.Live.Agenda

namespace DiningRing

namespace Session

variable {s : Session} {seat : ℕ}

/-! ### Moments -/

/-- What can happen at a live table next. -/
inductive Moment where
  /-- A seat is given a turn, up to its next point of waiting. -/
  | turn (seat : ℕ)
  /-- The clock is set. -/
  | time (clock : ℕ)
deriving DecidableEq, Repr

/-- The session after a moment. -/
def happen (s : Session) : Moment → Session
  | .turn seat => (poll 1 s seat).1
  | .time clock => { s with table := s.table.withClock clock }

/-- The session after several moments. -/
def follow (s : Session) (moments : List Moment) : Session := moments.foldl happen s

lemma follow_append (s : Session) (moments later : List Moment) :
    s.follow (moments ++ later) = (s.follow moments).follow later :=
  List.foldl_append

lemma happen_turn_of_some {t : Turn} (hstep : s.table.step seat = some t) :
    s.happen (.turn seat) = s.absorb seat t := by
  simp only [happen, poll, hstep]

lemma happen_turn_of_none (hstep : s.table.step seat = none) : s.happen (.turn seat) = s := by
  simp only [happen, poll, hstep]

/-- What holds of a session, and is kept by turns and by the clock, holds whatever happens. -/
lemma follow_induction {P : Session → Prop} (hs : P s)
    (hturn : ∀ u i t, P u → u.table.step i = some t → P (u.absorb i t))
    (htime : ∀ u clock, P u → P { u with table := u.table.withClock clock })
    (moments : List Moment) : P (s.follow moments) := by
  induction moments generalizing s with
  | nil => exact hs
  | cons m moments ih =>
    refine ih (s := s.happen m) ?_
    cases m with
    | turn i =>
      cases hstep : s.table.step i with
      | none =>
        rw [happen_turn_of_none hstep]
        exact hs
      | some t =>
        rw [happen_turn_of_some hstep]
        exact hturn s i t hs hstep
    | time clock => exact htime s clock hs

/-! ### Runs of a session -/

lemma poll_eq_follow (fuel : ℕ) (s : Session) (seat : ℕ) :
    (poll fuel s seat).1 = s.follow (List.replicate fuel (.turn seat)) := by
  induction fuel generalizing s with
  | zero => rfl
  | succ fuel ih =>
    rw [List.replicate_succ, ← List.singleton_append, follow_append]
    show _ = (s.happen (.turn seat)).follow _
    rw [← ih]
    cases hstep : s.table.step seat with
    | some t => simp only [poll, hstep, happen_turn_of_some hstep]
    | none =>
      -- a seat that has to wait still has to after it was given a turn
      rw [happen_turn_of_none hstep]
      cases fuel <;> simp only [poll, hstep]

lemma exists_follow_of_sweep (s : Session) : ∃ moments, s.sweep.1 = s.follow moments := by
  have hfold : ∀ (seats : List ℕ) (p : Session × Bool), ∃ moments,
      (seats.foldl (fun p seat => ((poll burst p.1 seat).1, p.2 || (poll burst p.1 seat).2)) p).1
        = p.1.follow moments := by
    intro seats
    induction seats with
    | nil => exact fun p => ⟨[], rfl⟩
    | cons seat seats ih =>
      intro p
      obtain ⟨moments, hrest⟩ := ih ((poll burst p.1 seat).1, p.2 || (poll burst p.1 seat).2)
      refine ⟨List.replicate burst (.turn seat) ++ moments, ?_⟩
      rw [follow_append, ← poll_eq_follow]
      exact hrest
  exact hfold _ (s, false)

/-- **What a session makes of itself is what some interleaving makes of it.** -/
theorem exists_follow_of_runUntil (halt : Session → Bool) (limit fuel : ℕ) (s : Session) :
    ∃ moments, runUntil halt limit fuel s = s.follow moments := by
  induction fuel generalizing s with
  | zero => exact ⟨[.time limit], rfl⟩
  | succ fuel ih =>
    obtain ⟨moments, hsweep⟩ := s.exists_follow_of_sweep
    rw [runUntil]
    split_ifs with hhalt
    · exact ⟨[], rfl⟩
    · cases hs : s.sweep with
      | mk after moved =>
        obtain rfl : after = s.follow moments := by rw [← hsweep, hs]
        cases moved with
        | true =>
          obtain ⟨later, hrest⟩ := ih (s.follow moments)
          exact ⟨moments ++ later, by rw [follow_append]; exact hrest⟩
        | false =>
          dsimp only
          split
          · rename_i wake _
            split_ifs
            · obtain ⟨later, hrest⟩ := ih ((s.follow moments).happen (.time wake))
              exact ⟨moments ++ .time wake :: later, by rw [follow_append]; exact hrest⟩
            · exact ⟨moments ++ [.time limit], by rw [follow_append]; rfl⟩
          · exact ⟨moments ++ [.time limit], by rw [follow_append]; rfl⟩

/-! ### Announcements -/

/-- A sink without a fault receives all that is heard in a turn. -/
lemma exists_notify (hs : s.observer.tripwire = none) (notices : List Notice) :
    ∃ journal, s.notify notices = ({ s with
      observer := ⟨s.observer.sink.recordAll (heard notices), none⟩
      journal := journal }, none) := by
  induction notices generalizing s with
  | nil =>
    refine ⟨s.journal, ?_⟩
    rw [notify, ← hs]
    rfl
  | cons notice notices ih =>
    cases notice with
    | seated seat order h =>
      obtain ⟨journal, hrest⟩ :=
        @ih { s with journal := s.journal.push (seatedEntry seat order h) } hs
      exact ⟨journal, hrest⟩
    | event e =>
      have hobserve : s.observe e = ({ s with
          observer := ⟨s.observer.sink.record e, none⟩
          journal := s.journal ++ s.observer.sink.journal e }, none) := by
        simp [observe, hs]
      obtain ⟨journal, hrest⟩ := @ih { s with
        observer := ⟨s.observer.sink.record e, none⟩
        journal := s.journal ++ s.observer.sink.journal e } rfl
      refine ⟨journal, ?_⟩
      simp only [notify, hobserve]
      exact hrest

/-- After a turn that does not end the work of its seat. -/
lemma exists_absorb (hs : s.observer.tripwire = none) {t : Turn} (hending : t.ending = none) :
    ∃ journal, s.absorb seat t = ⟨t.table, ⟨s.observer.sink.recordAll (heard t.notices), none⟩,
      s.ended, journal⟩ := by
  obtain ⟨journal, hnotify⟩ := @exists_notify { s with table := t.table } hs t.notices
  refine ⟨journal, ?_⟩
  rw [absorb]
  simp only [hnotify, hending]

/-- After any turn: what the table is like, what the sink has received, and which work is over. -/
lemma absorb_spec (hs : s.observer.tripwire = none) (seat : ℕ) (t : Turn) :
    (s.absorb seat t).table = t.table ∧
    (s.absorb seat t).observer = ⟨s.observer.sink.recordAll (heard t.notices), none⟩ ∧
    (s.absorb seat t).ended = match t.ending with
      | some result => s.ended.push ⟨seat, t.table.clock, .returned result⟩
      | none => s.ended := by
  obtain ⟨journal, hnotify⟩ := @exists_notify { s with table := t.table } hs t.notices
  rw [absorb]
  simp only [hnotify]
  cases t.ending with
  | none => exact ⟨rfl, rfl, rfl⟩
  | some result => exact ⟨rfl, rfl, rfl⟩

end Session

end DiningRing
