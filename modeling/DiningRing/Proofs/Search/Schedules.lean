/-
# Schedules and where they lead

A schedule leads from the start of a ring to a state if every seat in it can move when it is
its time (`Ring.LeadsTo`).  Several schedules may lead to the same state; of these the first
one is a shortest one and, of the shortest ones, the first in the lexicographic order
(`Ring.First`).  Its length is the distance of the state (`Ring.First.distance`), also if one
counts schedules with entries that are refused.

The order of schedules, `Nearer`, suits a search that goes from state to state: two schedules
with one more seat each are compared by the schedules without it, and only then by these seats
(`nearer_concat_iff`).
-/
import DiningRing.Proofs.Path
import Mathlib.Data.List.Shortlex

namespace DiningRing

/-! ### The order of schedules -/

/-- A schedule is nearer to the start than another if it is shorter, or as long and
lexicographically smaller. -/
def Nearer (v w : List ℕ) : Prop := List.Shortlex (· < ·) v w

section

variable {u v w : List ℕ} {i j : ℕ}

lemma nearer_iff : Nearer v w ↔ v.length < w.length ∨ v.length = w.length ∧ v < w :=
  List.shortlex_def

lemma nearer_of_length (h : v.length < w.length) : Nearer v w :=
  List.Shortlex.of_length_lt h

lemma not_nearer_nil : ¬ Nearer v [] := List.not_shortlex_nil_right

lemma not_nearer_self : ¬ Nearer w w := by
  intro h
  rw [nearer_iff] at h
  rcases h with h | ⟨-, h⟩
  · exact Nat.lt_irrefl _ h
  · exact List.lt_irrefl _ h

lemma Nearer.trans (huv : Nearer u v) (hvw : Nearer v w) : Nearer u w := by
  rw [nearer_iff] at huv hvw ⊢
  rcases huv with huv | ⟨huv, hlex⟩
  · left
    omega
  · rcases hvw with hvw | ⟨hvw, hlex'⟩
    · left
      omega
    · exact .inr ⟨huv.trans hvw, List.lt_trans hlex hlex'⟩

/-- Of two different schedules one is nearer. -/
lemma eq_of_not_nearer (hvw : ¬ Nearer v w) (hwv : ¬ Nearer w v) : v = w := by
  rw [nearer_iff] at hvw hwv
  have hlength : v.length = w.length := by omega
  exact le_antisymm (not_lt.mp fun h => hwv (.inr ⟨hlength.symm, h⟩))
    (not_lt.mp fun h => hvw (.inr ⟨hlength, h⟩))

lemma nearer_concat (w : List ℕ) (i : ℕ) : Nearer w (w ++ [i]) :=
  nearer_of_length (by simp)

/-- The last seats count only between equal schedules. -/
lemma lex_concat_iff (hlength : v.length = w.length) :
    v ++ [i] < w ++ [j] ↔ v < w ∨ v = w ∧ i < j := by
  induction v generalizing w with
  | nil =>
    obtain rfl := List.eq_nil_of_length_eq_zero hlength.symm
    simp [List.cons_lt_cons_iff]
  | cons k v ih =>
    cases w with
    | nil => cases hlength
    | cons l w =>
      have hlength : v.length = w.length := Nat.succ.inj hlength
      simp only [List.cons_append, List.cons_lt_cons_iff, ih hlength, List.cons.injEq]
      constructor
      · rintro (hkl | ⟨rfl, hlt | ⟨rfl, hij⟩⟩)
        · exact .inl (.inl hkl)
        · exact .inl (.inr ⟨rfl, hlt⟩)
        · exact .inr ⟨⟨rfl, rfl⟩, hij⟩
      · rintro ((hkl | ⟨rfl, hlt⟩) | ⟨⟨rfl, rfl⟩, hij⟩)
        · exact .inl hkl
        · exact .inr ⟨rfl, .inl hlt⟩
        · exact .inr ⟨rfl, .inr ⟨rfl, hij⟩⟩

/-- **The order of schedules with one more seat each.** -/
theorem nearer_concat_iff : Nearer (v ++ [i]) (w ++ [j]) ↔ Nearer v w ∨ v = w ∧ i < j := by
  rw [nearer_iff, nearer_iff]
  simp only [List.length_append, List.length_singleton]
  constructor
  · rintro (hlt | ⟨heq, hlex⟩)
    · exact .inl (.inl (by omega))
    · rcases (lex_concat_iff (by omega)).mp hlex with hlex | hlast
      · exact .inl (.inr ⟨by omega, hlex⟩)
      · exact .inr hlast
  · rintro ((hlt | ⟨heq, hlex⟩) | ⟨rfl, hij⟩)
    · exact .inl (by omega)
    · exact .inr ⟨by omega, (lex_concat_iff heq).mpr (.inl hlex)⟩
    · exact .inr ⟨rfl, (lex_concat_iff rfl).mpr (.inr ⟨rfl, hij⟩)⟩

end

/-! ### Schedules that lead somewhere -/

namespace Ring

variable {r : Ring} {s t : RingState} {i : ℕ} {a : Action} {v w : List ℕ} {h : List Move}

/-- A schedule, each seat of which can move when it is its time, leads from the start to a
state. -/
inductive LeadsTo (r : Ring) : List ℕ → RingState → Prop where
  | start : LeadsTo r [] r.initial
  | move {w : List ℕ} {s : RingState} {i : ℕ} {a : Action} (before : LeadsTo r w s)
      (seat : i < r.seats) (ready : r.Ready s i a) : LeadsTo r (w ++ [i]) (r.perform s i a)

/-- Some schedule leads to a state. -/
def Reachable (r : Ring) (t : RingState) : Prop := ∃ w, r.LeadsTo w t

lemma LeadsTo.reachable (h : r.LeadsTo w t) : r.Reachable t := ⟨w, h⟩

lemma LeadsTo.eq_initial (h : r.LeadsTo [] t) : t = r.initial := by
  generalize hw : ([] : List ℕ) = w at h
  cases h with
  | start => rfl
  | move => simp at hw

/-- The last move of a schedule. -/
lemma LeadsTo.exists_last (h : r.LeadsTo (w ++ [i]) t) :
    ∃ s a, r.LeadsTo w s ∧ i < r.seats ∧ r.Ready s i a ∧ t = r.perform s i a := by
  generalize hv : w ++ [i] = v at h
  cases h with
  | start => simp at hv
  | @move w' s i' a hbefore hi hready =>
    obtain ⟨rfl, hlast⟩ := List.append_inj' hv rfl
    obtain rfl : i = i' := by simpa using hlast
    exact ⟨s, a, hbefore, hi, hready, rfl⟩

/-- **A schedule leads to one state at most.** -/
theorem LeadsTo.unique (hs : r.LeadsTo w s) (ht : r.LeadsTo w t) : s = t := by
  induction hs generalizing t with
  | start => exact ht.eq_initial.symm
  | move _ _ hready ih =>
    obtain ⟨s', b, hbefore, -, hready', rfl⟩ := ht.exists_last
    obtain rfl := ih hbefore
    obtain rfl := hready.unique hready'
    rfl

lemma LeadsTo.sound (hn : 2 ≤ r.seats) (h : r.LeadsTo w t) : t.Sound r.seats := by
  induction h with
  | start => exact sound_initial hn
  | move _ hi hready ih => exact sound_perform ih hi hready

lemma Reachable.sound (hn : 2 ≤ r.seats) (h : r.Reachable t) : t.Sound r.seats := by
  obtain ⟨w, hw⟩ := h
  exact hw.sound hn

/-- What a path from the start visits last, its seats lead to. -/
lemma LeadsTo.append_path (hw : r.LeadsTo w s) (hp : r.Path s h t) :
    r.LeadsTo (w ++ h.map Move.seat) t := by
  induction hp generalizing w with
  | nil => simpa using hw
  | cons hi hready _ ih =>
    have hrest := ih (hw.move hi hready)
    rwa [List.append_assoc] at hrest

/-- **Schedules that lead somewhere are those of paths.** -/
theorem leadsTo_iff_path :
    r.LeadsTo w t ↔ ∃ h, r.Path r.initial h t ∧ h.map Move.seat = w := by
  constructor
  · intro hw
    induction hw with
    | start => exact ⟨[], .nil _, rfl⟩
    | @move w s i a _ hi hready ih =>
      obtain ⟨h, hpath, rfl⟩ := ih
      exact ⟨h ++ [⟨i, a⟩], hpath.append (.single hi hready), by simp⟩
  · rintro ⟨h, hpath, rfl⟩
    exact LeadsTo.start.append_path hpath

/-! ### First schedules -/

/-- A schedule that leads to a state, and no nearer one does. -/
structure First (r : Ring) (w : List ℕ) (t : RingState) : Prop where
  leads : r.LeadsTo w t
  least : ∀ v, r.LeadsTo v t → ¬ Nearer v w

lemma first_initial (r : Ring) : r.First [] r.initial :=
  ⟨.start, fun _ _ => not_nearer_nil⟩

lemma First.eq_or_nearer (hw : r.First w t) (hv : r.LeadsTo v t) : w = v ∨ Nearer w v := by
  by_cases hwv : Nearer w v
  · exact .inr hwv
  · exact .inl (eq_of_not_nearer hwv (hw.least v hv))

lemma First.unique (hw : r.First w t) (hv : r.First v t) : w = v := by
  rcases hw.eq_or_nearer hv.leads with rfl | hnearer
  · rfl
  · exact absurd hnearer (hv.least w hw.leads)

/-- The first schedule is a shortest one. -/
lemma First.length_le (hw : r.First w t) (hv : r.LeadsTo v t) : w.length ≤ v.length := by
  by_contra hlt
  exact hw.least v hv (nearer_of_length (by omega))

end Ring

/-! ### Schedules of simulations -/

/-- The accepted entries of a schedule, in order, are a part of it. -/
lemma Simulation.sublist_history (sim : Simulation) (schedule : List ℕ) :
    ((sim.history schedule).map Move.seat).Sublist schedule := by
  induction schedule generalizing sim with
  | nil => exact .slnil
  | cons i schedule ih =>
    have hrest := ih (sim.step i).simulation
    rw [history]
    cases (sim.step i).result with
    | ok a => exact hrest.cons_cons i
    | error e => exact hrest.cons i

namespace Ring

variable {r : Ring} {t : RingState} {v w : List ℕ} {d : ℕ}

lemma leadsTo_of_course {sink : Sink} {h : List Move} {sim : Simulation}
    (hc : (Simulation.begin r sink).Course h sim) : r.LeadsTo (h.map Move.seat) sim.state := by
  induction hc with
  | start => exact .start
  | move before hi hready ih =>
    rw [before.ring_eq] at hi hready ⊢
    rw [List.map_append]
    exact ih.move hi hready

/-- The accepted entries of any schedule lead to the state that it leaves. -/
lemma leadsTo_history (hn : 2 ≤ r.seats) (sink : Sink) (schedule : List ℕ) :
    r.LeadsTo (((Simulation.begin r sink).history schedule).map Move.seat)
      ((Simulation.begin r sink).play schedule).state :=
  leadsTo_of_course (Simulation.course_begin hn r.plan sink schedule)

/-- What a schedule leads to, a simulation of the ring comes to. -/
lemma LeadsTo.play (hw : r.LeadsTo w t) (hn : 2 ≤ r.seats) (sink : Sink) :
    (Simulation.begin r sink).accepts w = true ∧
      ((Simulation.begin r sink).play w).state = t := by
  obtain ⟨h, hpath, rfl⟩ := leadsTo_iff_path.mp hw
  have hpath : (Simulation.begin r sink).ring.Path (Simulation.begin r sink).state h t := hpath
  obtain ⟨haccepts, -, hstate⟩ := hpath.accepts (sound_initial hn)
  exact ⟨haccepts, hstate⟩

/-- **The reachable states** are those that simulations of the ring come to. -/
theorem reachable_iff_play (hn : 2 ≤ r.seats) (sink : Sink) :
    r.Reachable t ↔ ∃ schedule, ((Simulation.begin r sink).play schedule).state = t := by
  constructor
  · rintro ⟨w, hw⟩
    exact ⟨w, (hw.play hn sink).2⟩
  · rintro ⟨schedule, rfl⟩
    exact ⟨_, leadsTo_history hn sink schedule⟩

/-- The length of a shortest schedule after which the ring is in a state. -/
def Distance (r : Ring) (t : RingState) (d : ℕ) : Prop :=
  IsLeast {k | ∃ schedule : List ℕ,
    ((Simulation.begin r .null).play schedule).state = t ∧ schedule.length = k} d

lemma Distance.reachable (hn : 2 ≤ r.seats) (h : r.Distance t d) : r.Reachable t := by
  obtain ⟨⟨schedule, hstate, -⟩, -⟩ := h
  exact (reachable_iff_play hn .null).mpr ⟨schedule, hstate⟩

/-- **The first schedule tells the distance.** -/
theorem First.distance (hw : r.First w t) (hn : 2 ≤ r.seats) : r.Distance t w.length := by
  refine ⟨⟨w, (hw.leads.play hn .null).2, rfl⟩, ?_⟩
  rintro k ⟨schedule, rfl, rfl⟩
  -- entries that are refused only make a schedule longer
  have haccepted := (Simulation.sublist_history (Simulation.begin r .null) schedule).length_le
  exact (hw.length_le (leadsTo_history hn .null schedule)).trans haccepted

end Ring

end DiningRing
