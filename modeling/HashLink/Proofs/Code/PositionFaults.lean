import HashLink.Proofs.Code.PositionLimits
import Mathlib.Data.Nat.Find

/-!
# The first fault of a table

The scribe stops at the first position that cannot be written after the one before it
(`Scribe.error_records`), and never before that, however long the table is. What it does there is one
of two things. Mostly it reports what is at fault. But where it has to measure a step that has no
32-bit form it breaks and reports nothing (`Output.positions_panic_iff`). This takes a line that is
negative and more than 2^31 lines above the one before, so it could not have been written either.

Places in a table are counted from 0. Before the first position stands the start of the stream.
-/

namespace HashLink

open Emission

namespace Position

/-- Of a table that starts behind `p`, the position at place `i` is `b`, and `a` is the one before. -/
def Neighbours (p : Position) (ps : List Position) (i : Nat) (a b : Position) : Prop :=
  (p :: ps)[i]? = some a ∧ ps[i]? = some b

/-- The position at place `i` cannot be written after the one before it. -/
def FaultAt (p : Position) (ps : List Position) (i : Nat) : Prop :=
  ∃ a b, Neighbours p ps i a b ∧ a.Faulty b

section Places

variable {p q a b : Position} {ps qs : List Position} {i : Nat}

theorem neighbours_zero : Neighbours p (q :: qs) 0 a b ↔ p = a ∧ q = b := by
  simp [Neighbours]

theorem neighbours_succ : Neighbours p (q :: qs) (i + 1) a b ↔ Neighbours q qs i a b := Iff.rfl

theorem not_faultAt_nil : ¬FaultAt p [] i := by
  rintro ⟨a, b, ⟨_, hb⟩, _⟩
  cases hb

theorem faultAt_zero : FaultAt p (q :: qs) 0 ↔ p.Faulty q := by
  simp [FaultAt, neighbours_zero]

theorem faultAt_succ : FaultAt p (q :: qs) (i + 1) ↔ FaultAt q qs i := Iff.rfl

instance decidableFaultAt :
    (p : Position) → (ps : List Position) → (i : Nat) → Decidable (FaultAt p ps i)
  | _, [], _ => isFalse not_faultAt_nil
  | _, _ :: _, 0 => decidable_of_iff _ faultAt_zero.symm
  | _, q :: qs, i + 1 =>
    have := decidableFaultAt q qs i
    decidable_of_iff _ faultAt_succ.symm

theorem forall_not_faultAt :
    (∀ i, ¬FaultAt p (q :: qs) i) ↔ ¬p.Faulty q ∧ ∀ i, ¬FaultAt q qs i := by
  rw [← Nat.and_forall_add_one, faultAt_zero]
  exact and_congr_right fun _ => Iff.rfl

/-- No fault up to a place behind the first one. -/
theorem forall_lt_succ_not_faultAt :
    (∀ j < i + 1, ¬FaultAt p (q :: qs) j) ↔ ¬p.Faulty q ∧ ∀ j < i, ¬FaultAt q qs j := by
  rw [Nat.forall_lt_succ_left, faultAt_zero]
  exact and_congr_right fun _ => Iff.rfl

/-- Of several faults one is the first. -/
theorem exists_first_fault (h : ∃ i, FaultAt p ps i) :
    ∃ i a b, Neighbours p ps i a b ∧ a.Faulty b ∧ ∀ j < i, ¬FaultAt p ps j := by
  obtain ⟨a, b, hab, hfaulty⟩ := Nat.find_spec h
  exact ⟨Nat.find h, a, b, hab, hfaulty, fun _ hj => Nat.find_min h hj⟩

/-- If only lines are at fault, there is no fault exactly when every line follows the one before. -/
theorem forall_not_faultAt_iff (hfiles : (p :: ps).IsChain FileFollows) :
    (∀ i, ¬FaultAt p ps i) ↔ (p :: ps).IsChain LineFollows := by
  induction ps generalizing p with
  | nil => exact iff_of_true (fun _ => not_faultAt_nil) (.singleton _)
  | cons q qs ih =>
      obtain ⟨hfile, hfiles⟩ := List.isChain_cons_cons.mp hfiles
      rw [forall_not_faultAt, ih hfiles, List.isChain_cons_cons, Faulty, not_or,
        not_fileFault_iff, not_lineFault_iff, and_iff_right hfile]

end Places

end Position

/-! ## The scribe -/

namespace Scribe

/-- The scribe after some positions. -/
def after (s : Scribe) (ps : List Position) : Scribe := ps.foldl (fun s p => (s.place p).2) s

variable {s : Scribe} {p a b : Position} {ps : List Position} {i : Nat}

/-- What is known behind a position that can be written. -/
theorem place_of_not_faulty (hs : 0 ≤ s.line.toInt) (h : ¬s.here.Faulty p) :
    (s.place p).1.error = none ∧ (s.place p).2.here = p ∧ 0 ≤ (s.place p).2.line.toInt := by
  have hfinishes : (s.place p).1.Finishes :=
    finishes_place_iff.mpr ⟨fun hplunges => h (hplunges.faulty hs), h⟩
  have hhere := here_place hfinishes
  refine ⟨hfinishes, hhere, ?_⟩
  rw [show (s.place p).2.line = p.line from congrArg Position.line hhere]
  exact Position.line_nonneg_of_follows (Position.not_lineFault_iff.mp (not_or.mp h).2) hs

/-- As long as there is no fault, the scribe stands at the position before. -/
theorem here_after (hs : 0 ≤ s.line.toInt) (hab : s.here.Neighbours ps i a b)
    (hbefore : ∀ j < i, ¬s.here.FaultAt ps j) :
    (s.after (ps.take i)).here = a ∧ 0 ≤ (s.after (ps.take i)).line.toInt := by
  induction i generalizing s ps with
  | zero =>
      cases ps with
      | nil => cases hab.2
      | cons p ps => exact ⟨(Position.neighbours_zero.mp hab).1, hs⟩
  | succ i ih =>
      cases ps with
      | nil => cases hab.2
      | cons p ps =>
          obtain ⟨hok, hbefore⟩ := Position.forall_lt_succ_not_faultAt.mp hbefore
          obtain ⟨_, hhere, hline⟩ := place_of_not_faulty hs hok
          rw [← hhere] at hbefore
          exact ih hline (hhere.symm ▸ Position.neighbours_succ.mp hab) hbefore

/-- **The scribe stops exactly at the first fault**, and breaks there if it plunges. -/
theorem error_records (hs : 0 ≤ s.line.toInt) (ps : List Position) :
    ((s.records ps).error = none ↔ ∀ i, ¬s.here.FaultAt ps i) ∧
      ∀ i a b, s.here.Neighbours ps i a b → a.Faulty b → (∀ j < i, ¬s.here.FaultAt ps j) →
        (s.records ps).error =
          some (if (s.after (ps.take i)).Plunges b then .panicked .subtraction else a.fault b) := by
  induction ps generalizing s with
  | nil =>
      refine ⟨iff_of_true s.finishes_flush_here fun _ => Position.not_faultAt_nil, ?_⟩
      rintro i a b ⟨_, hb⟩
      cases hb
  | cons p ps ih =>
      rw [records]
      dsimp only
      rw [error_append]
      by_cases hfaulty : s.here.Faulty p
      · have hstop : (s.place p).1.error =
            some (if s.Plunges p then .panicked .subtraction else s.here.fault p) := by
          rw [error_place, if_pos hfaulty]
          split <;> rfl
        rw [hstop, Option.some_or]
        refine ⟨iff_of_false (by simp) fun hnone =>
          hnone 0 (Position.faultAt_zero.mpr hfaulty), ?_⟩
        intro i a b hab _ hfirst
        cases i with
        | zero =>
            obtain ⟨rfl, rfl⟩ := Position.neighbours_zero.mp hab
            rfl
        | succ i => exact absurd (Position.faultAt_zero.mpr hfaulty) (hfirst 0 (Nat.succ_pos i))
      · obtain ⟨hgo, hhere, hline⟩ := place_of_not_faulty hs hfaulty
        obtain ⟨hnone, hsome⟩ := ih hline
        rw [hhere] at hnone hsome
        rw [hgo, Option.none_or]
        refine ⟨?_, ?_⟩
        · rw [hnone, Position.forall_not_faultAt, and_iff_right hfaulty]
        · intro i a b hab hab' hfirst
          cases i with
          | zero =>
              obtain ⟨rfl, rfl⟩ := Position.neighbours_zero.mp hab
              exact absurd hab' hfaulty
          | succ i =>
              exact hsome i a b (Position.neighbours_succ.mp hab) hab'
                (Position.forall_lt_succ_not_faultAt.mp hfirst).2

/-- The scribe comes to place `i` of a table and plunges there. -/
def PlungesAt (s : Scribe) (ps : List Position) (i : Nat) : Prop :=
  ∃ a b, s.here.Neighbours ps i a b ∧ (∀ j < i, ¬s.here.FaultAt ps j) ∧
    (s.after (ps.take i)).Plunges b

/-- **The scribe breaks only where it plunges**, and always over a difference: the sum of a line and a
step never leaves its range. -/
theorem panics_records_iff (hs : 0 ≤ s.line.toInt) (ps : List Position) (cause : Panic) :
    (s.records ps).error = some (.panicked cause) ↔
      cause = .subtraction ∧ ∃ i, s.PlungesAt ps i := by
  obtain ⟨hnone, hsome⟩ := error_records hs ps
  constructor
  · intro herror
    have hfault : ∃ i, s.here.FaultAt ps i := by
      by_contra hclear
      rw [hnone.mpr (not_exists.mp hclear)] at herror
      cases herror
    obtain ⟨i, a, b, hab, hfaulty, hbefore⟩ := Position.exists_first_fault hfault
    rw [hsome i a b hab hfaulty hbefore] at herror
    split at herror
    · next hplunges =>
      cases herror
      exact ⟨rfl, i, a, b, hab, hbefore, hplunges⟩
    · rw [Position.fault] at herror
      split at herror <;> cases herror
  · rintro ⟨rfl, i, a, b, hab, hbefore, hplunges⟩
    obtain ⟨hhere, hline⟩ := here_after hs hab hbefore
    rw [hsome i a b hab (hhere ▸ hplunges.faulty hline) hbefore, if_pos hplunges]

end Scribe

/-! ## Tables -/

/-- **Which tables of positions are refused.** Exactly those with a fault. The first fault says what
the writer does: it breaks if it plunges there, and otherwise it reports the file if the file is at
fault, and the line if not. -/
theorem Output.positions_refused_iff (ps : List Position) :
    ((∃ e, (Output.positions ps).toExcept = .error e) ↔ ∃ i, Position.start.FaultAt ps i) ∧
      ∀ i a b, Position.start.Neighbours ps i a b → a.Faulty b →
        (∀ j < i, ¬Position.start.FaultAt ps j) →
        (Output.positions ps).toExcept =
          .error (if (Scribe.after {} (ps.take i)).Plunges b then .panicked .subtraction
            else a.fault b) := by
  obtain ⟨hnone, hsome⟩ := Scribe.error_records (s := {}) (Int.le_refl 0) ps
  simp only [toExcept_eq_error_iff]
  refine ⟨?_, hsome⟩
  rw [← not_iff_not, not_exists, not_exists]
  exact Option.eq_none_iff_forall_ne_some.symm.trans hnone

/-- A repeated line, and then one far above in a file that no record can name. -/
def strayPositions : List Position := [⟨0, 1⟩, ⟨0, 1⟩, ⟨0x8000, -0x7FFFFFFF⟩]

/-- The scribe can still measure this step, so it reports the file. -/
theorem positions_refused_strayPositions :
    Position.start.FaultAt strayPositions 2 ∧
      (Output.positions strayPositions).toExcept = .error (.debugFileOutOfRange 0x8000) := by
  have hfaulty : (⟨0, 1⟩ : Position).Faulty ⟨0x8000, -0x7FFFFFFF⟩ := by decide
  have hbefore : ∀ j < 2, ¬Position.start.FaultAt strayPositions j := by decide
  exact ⟨⟨_, _, ⟨rfl, rfl⟩, hfaulty⟩,
    (Output.positions_refused_iff strayPositions).2 2 _ _ ⟨rfl, rfl⟩ hfaulty hbefore⟩

/-- Two instructions on one line, and then one as far above as a line can be. -/
def plungingPositions : List Position := [⟨0, 1⟩, ⟨0, 1⟩, ⟨0, -0x80000000⟩]

/-- Even in a short table the first fault is not always reported. -/
theorem exists_unreported_fault :
    ¬∀ ps : List Position, ps.length < 0x4000000 → ∀ i a b, Position.start.Neighbours ps i a b →
      a.Faulty b → (∀ j < i, ¬Position.start.FaultAt ps j) →
      (Output.positions ps).toExcept = .error (a.fault b) := by
  intro hall
  have hreported := hall plungingPositions (by decide) 2 ⟨0, 1⟩ ⟨0, -0x80000000⟩ ⟨rfl, rfl⟩
    (by decide) (by decide)
  have hbroke : (Output.positions plungingPositions).toExcept = .error (.panicked .subtraction) :=
    rfl
  rw [hbroke] at hreported
  revert hreported
  decide

/-- **When the arithmetic on lines leaves its range.** The writer of a table breaks exactly if the
scribe plunges somewhere, and always over a difference. If it plunges nowhere, every first fault is
reported. -/
theorem Output.positions_panic_iff (ps : List Position) :
    ((∃ cause, (Output.positions ps).toExcept = .error (.panicked cause)) ↔
        ∃ i, Scribe.PlungesAt {} ps i) ∧
      (∀ cause, (Output.positions ps).toExcept = .error (.panicked cause) → cause = .subtraction) ∧
      ((∀ i, ¬Scribe.PlungesAt {} ps i) → ∀ i a b, Position.start.Neighbours ps i a b → a.Faulty b →
        (∀ j < i, ¬Position.start.FaultAt ps j) →
        (Output.positions ps).toExcept = .error (a.fault b)) := by
  have hpanics := Scribe.panics_records_iff (s := {}) (Int.le_refl 0) ps
  have hbroke (cause : Panic) : (Output.positions ps).toExcept = .error (.panicked cause) ↔
      cause = .subtraction ∧ ∃ i, Scribe.PlungesAt {} ps i :=
    toExcept_eq_error_iff.trans (hpanics cause)
  refine ⟨?_, fun cause h => ((hbroke cause).mp h).1, ?_⟩
  · simp only [hbroke, exists_and_right, exists_eq, true_and]
  · intro hnowhere i a b hab hfaulty hbefore
    have hstop := (Scribe.error_records (s := {}) (Int.le_refl 0) ps).2 i a b hab hfaulty hbefore
    rw [if_neg fun hplunges => hnowhere i ⟨a, b, hab, hbefore, hplunges⟩] at hstop
    exact toExcept_eq_error_iff.mpr hstop

/-- Positions that step beyond the lines that a record can name and come back too far. -/
def reboundPositions : List Position := [⟨0, 0x1FFFFF⟩, ⟨0, 0x200010⟩, ⟨0, -1⟩]

theorem positions_panic_reboundPositions :
    (¬∃ cause, (Output.positions reboundPositions).toExcept = .error (.panicked cause)) ∧
      (Output.positions reboundPositions).toExcept = .error (.debugLineOutOfRange (-1)) := by
  obtain ⟨hbroke, _, hreported⟩ := Output.positions_panic_iff reboundPositions
  have hwhole : ¬∃ cause, (Output.positions reboundPositions).toExcept = .error (.panicked cause) := by
    rintro ⟨cause, h⟩
    cases h
  have hnowhere := not_exists.mp (mt hbroke.mpr hwhole)
  have hbefore : ∀ j < 2, ¬Position.start.FaultAt reboundPositions j := by decide
  exact ⟨hwhole, hreported hnowhere 2 _ _ ⟨rfl, rfl⟩ (by decide) hbefore⟩

/-- A line further down, and then one as far above as a line can be. -/
def divingPositions : List Position := [⟨0, 5⟩, ⟨0, -0x80000000⟩]

/-- The arithmetic on lines does leave its range, and then no line is reported. -/
theorem line_arithmetic_breaks :
    (Output.positions divingPositions).toExcept = .error (.panicked .subtraction) ∧
      ¬∀ ps cause, (Output.positions ps).toExcept ≠ .error (.panicked cause) := by
  have hbroke : (Output.positions divingPositions).toExcept = .error (.panicked .subtraction) := rfl
  exact ⟨hbroke, fun hnever => hnever _ _ hbroke⟩

/-! ## Tables that were read

The lines of a table that was read are not negative, so none of them is too far above another. -/

namespace Output

variable {ps : List Position}

/-- If only lines are at fault, a table can be written exactly when every line follows the one
before. -/
theorem finishes_positions_iff (hfiles : (Position.start :: ps).IsChain Position.FileFollows) :
    (positions ps).Finishes ↔ (Position.start :: ps).IsChain Position.LineFollows :=
  (Scribe.error_records (s := {}) (Int.le_refl 0) ps).1.trans
    (Position.forall_not_faultAt_iff hfiles)

theorem error_positions_of_nonneg (hfiles : (Position.start :: ps).IsChain Position.FileFollows)
    (hlines : ∀ p ∈ ps, 0 ≤ p.line.toInt) {e : EncodeError} (he : (positions ps).error = some e) :
    ∃ p ∈ ps, e = .debugLineOutOfRange p.line := by
  obtain ⟨hnone, hsome⟩ := Scribe.error_records (s := {}) (Int.le_refl 0) ps
  have hfault : ∃ i, Position.start.FaultAt ps i := by
    by_contra hclear
    rw [show (positions ps).error = none from hnone.mpr (not_exists.mp hclear)] at he
    cases he
  obtain ⟨i, a, b, hab, hfaulty, hbefore⟩ := Position.exists_first_fault hfault
  obtain ⟨hhere, hline⟩ := Scribe.here_after (s := {}) (Int.le_refl 0) hab hbefore
  have hb := List.mem_of_getElem? hab.2
  have hnear : ¬(Scribe.after {} (ps.take i)).Plunges b := by
    intro hplunges
    have hlow := hlines b hb
    have hhigh := b.line.toInt_lt
    have hbefore := (Scribe.after {} (ps.take i)).line.toInt_lt
    exact hplunges.2 ⟨by omega, by omega⟩
  have hfile : a.FileFollows b := by
    obtain ⟨hi, rfl⟩ := List.getElem?_eq_some_iff.mp hab.1
    obtain ⟨hi', rfl⟩ := List.getElem?_eq_some_iff.mp hab.2
    exact List.isChain_iff_getElem.mp hfiles i (Nat.succ_lt_succ hi')
  have herror := hsome i a b hab hfaulty hbefore
  rw [if_neg hnear, Position.fault, if_neg (Position.not_fileFault_iff.mpr hfile)] at herror
  exact ⟨b, hb, Option.some.inj (he.symm.trans herror)⟩

end Output

end HashLink
